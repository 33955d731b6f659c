import ProofSheet.Mapping.Basic
import ProofSheet.Object.Substitute
import ProofSheet.Proofs.Formula.Substitution
import ProofSheet.Proofs.Object.Pairing

/-!
# Likeness

The truth-functional solver compares objects up to pairs of negations, outside all quantifiers. There
likeness is an equivalence: an object is alike itself, even one that binds a letter again within its
scope.

* `Object.alike_self`, `Object.alike_symm`, `Object.alike_trans`: alikeness is an equivalence.
* `Object.alikeApart_self`: an object that is compared with itself part by part is found alike, so it does
  not matter whether objects built anew count as one.
* `Object.Like`: the comparison up to pairs of negations, as a relation.
* `Object.like_negation`, `Object.like_conditional`, `Object.like_junction`: likeness of compound objects
  is likeness of their parts.
* `Object.alike_junctionOf`: junctions built from alike parts.
* `Object.like_substitute`: **alike objects may be put for each other**, in formulas built by negations,
  junctions and conditionals.
-/

namespace ProofSheet

namespace Object

variable {dn : Bool} {f g h : Object}

open BoundPairs (Linked Proper Matched)
open Formula (exists_of_forall₂ Kind)

/-! ## An equivalence -/

theorem alike_iff : alike dn f g = true ↔ Paired dn [] f g :=
  alikeUnder_iff_paired .nil

/-- **An object is paired with itself by its parts**, where nothing is bound around it. -/
theorem parts_self (dn : Bool) (f : Object) : Parts dn (Paired dn) [] f f := by
  have hone : ∀ o : Object, Paired dn [] o o := fun o => .one BoundPairs.matched_nil
  unfold Parts
  cases hf : face dn f with
  | letter s p => exact ⟨s, p, rfl, BoundPairs.linked_nil.mpr rfl⟩
  | predicate name args p => exact ⟨args, p, rfl, List.forall₂_same.mpr fun a _ => hone a⟩
  | junction junctor juncts p =>
    exact ⟨juncts, p, rfl, juncts, .refl _, List.forall₂_same.mpr fun o _ => hone o⟩
  | conditional a c p => exact ⟨a, c, p, rfl, hone a, hone c⟩
  | biconditional a b p => exact ⟨a, b, p, rfl, .inl ⟨hone a, hone b⟩⟩
  | negation o p => exact ⟨o, p, rfl, hone o⟩
  | quantified k x body p =>
    exact ⟨x, body, p, rfl, rfl, .one (BoundPairs.matched_nil.cons x)⟩
  | identity a b equal p => exact ⟨a, b, p, rfl, .inl ⟨hone a, hone b⟩⟩

/-- **Two objects are alike exactly if their parts are paired off**, be they one or not. -/
theorem alike_iff_parts : alike dn f g = true ↔ Parts dn (Paired dn) [] f g := by
  rw [alike_iff, paired_iff_parts]
  refine ⟨?_, .inr⟩
  rintro (⟨rfl, -⟩ | h)
  · exact parts_self dn f
  · exact h

/-- **Compared with itself part by part, an object is found alike.** -/
theorem alikeApart_self (dn : Bool) (f : Object) : alikeApart dn [] f f = true :=
  (alikeApart_iff_parts f .nil f).mpr (parts_self dn f)

@[simp] theorem alike_self (dn : Bool) (f : Object) : alike dn f f = true :=
  alike_iff.mpr (.one BoundPairs.matched_nil)

theorem alike_symm (hfg : alike dn f g = true) : alike dn g f = true :=
  alike_iff.mpr ((alike_iff.mp hfg).symm .nil)

theorem alike_trans (hfg : alike dn f g = true) (hgh : alike dn g h = true) : alike dn f h = true :=
  alike_iff.mpr ((alike_iff.mp hfg).trans .nil (alike_iff.mp hgh))

/-- Two objects are alike exactly if their faces are. -/
theorem alike_of_faces {f' g' : Object} (hf : face dn f' = face dn f) (hg : face dn g' = face dn g) :
    alike dn f' g' = true ↔ alike dn f g = true := by
  rw [alike_iff_parts, alike_iff_parts]
  exact ⟨Parts.of_faces hf.symm hg.symm, Parts.of_faces hf hg⟩

/-- Two objects are alike up to pairs of negations. -/
def Like (f g : Object) : Prop := alike true f g = true

instance (f g : Object) : Decidable (Like f g) := inferInstanceAs (Decidable (_ = true))

theorem like_iff_parts : Like f g ↔ Parts true (Paired true) [] f g := alike_iff_parts

@[simp] theorem Like.refl (f : Object) : Like f f := alike_self true f

theorem Like.symm (hfg : Like f g) : Like g f := alike_symm hfg

theorem Like.trans (hfg : Like f g) (hgh : Like g h) : Like f h := alike_trans hfg hgh

theorem like_core_left : Like f.core g ↔ Like f g :=
  alike_of_faces (core_core f) rfl

theorem like_core_right : Like f g.core ↔ Like f g :=
  alike_of_faces rfl (core_core g)

/-- What may share a slot is what is alike. -/
theorem compatible_iff : Slot.compatible f g = true ↔ Like f g := by
  show (decide (f = g) || alike true f g) = true ↔ Like f g
  rw [Bool.or_eq_true, decide_eq_true_eq]
  refine ⟨?_, .inr⟩
  rintro (rfl | h)
  · exact .refl f
  · exact h

/-! ## The parts of objects that are alike -/

theorem ne_negation_of_core {p : Option Place} (h : f.core = .negation g p) :
    ∀ k q, g ≠ .negation k q := by
  rintro k q rfl
  exact core_ne_doubled f k p q h

/-- **Objects that are alike have cores of one kind.** -/
theorem Like.kind_core (hfg : Like f g) : f.core.kind = g.core.kind := by
  have hface : ∀ o : Object, face true o = o.core := fun _ => rfl
  rw [like_iff_parts, Parts, hface, hface] at hfg
  cases hf : f.core with
  | letter | predicate | junction | negation =>
    simp only [hf] at hfg
    obtain ⟨_, _, hg, _⟩ := hfg
    rw [hg]
    rfl
  | conditional | biconditional | quantified | identity =>
    simp only [hf] at hfg
    obtain ⟨_, _, _, hg, _⟩ := hfg
    rw [hg]
    rfl

/-- **The core of a negation**: a negation in the core is taken off, and any other core is negated. -/
theorem core_of_negation (f : Object) : ∀ q,
    (∃ o p, f.core = .negation o p ∧ core (.negation f q) = o.core) ∨
      ((∀ o p, f.core ≠ .negation o p) ∧ ∃ p, core (.negation f q) = .negation f.core p) := by
  induction f using faceInduction true with
  | negation o p h _ =>
    intro q
    exact .inl ⟨o, p, core_negation (h rfl), core_doubled o q p⟩
  | doubled o p p' _ ih =>
    intro q
    rw [core_doubled, core_doubled]
    exact ih p'
  | _ =>
    intro q
    refine .inr ⟨by simp [core], q, ?_⟩
    rw [core_negation (by simp), core_of_ne (by simp)]

theorem like_negation_of_ne {p q : Option Place} (hf : ∀ k r, f ≠ .negation k r)
    (hg : ∀ k r, g ≠ .negation k r) : Like (.negation f p) (.negation g q) ↔ Like f g := by
  rw [like_iff_parts, Parts, face_negation fun _ => hf, face_negation fun _ => hg, Like, alike_iff]
  simp

theorem Like.negation {p q : Option Place} (hfg : Like f g) :
    Like (.negation f p) (.negation g q) := by
  have hkind := hfg.kind_core
  rw [← like_core_left, ← like_core_right] at hfg ⊢
  -- the cores are of one kind, so a negation is taken off on both sides or on neither
  rcases core_of_negation f p with ⟨o, r, hf, hf'⟩ | ⟨hf, r, hf'⟩
  · rcases core_of_negation g q with ⟨o', r', hg, hg'⟩ | ⟨hg, -⟩
    · rw [hf, hg, like_negation_of_ne (ne_negation_of_core hf) (ne_negation_of_core hg)] at hfg
      rwa [hf', hg', like_core_left, like_core_right]
    · rw [hf] at hkind
      cases hcore : g.core with
      | negation o' r' => exact absurd hcore (hg o' r')
      | _ => simp [hcore] at hkind
  · rcases core_of_negation g q with ⟨o', r', hg, -⟩ | ⟨hg, r', hg'⟩
    · rw [hg] at hkind
      cases hcore : f.core with
      | negation o r => exact absurd hcore (hf o r)
      | _ => simp [hcore] at hkind
    · rw [hf', hg', like_negation_of_ne hf hg]
      exact hfg

theorem like_negation {p q : Option Place} : Like (.negation f p) (.negation g q) ↔ Like f g := by
  refine ⟨fun h => ?_, Like.negation⟩
  have hdoubled := @Like.negation _ _ none none h
  rwa [← like_core_left, ← like_core_right, core_doubled, core_doubled, like_core_left,
    like_core_right] at hdoubled

theorem alike_conditional {a c a' c' : Object} {p q : Option Place} :
    alike dn (.conditional a c p) (.conditional a' c' q) = true ↔
      alike dn a a' = true ∧ alike dn c c' = true := by
  simp [alike_iff_parts (f := .conditional a c p), Parts, alike_iff]

theorem alike_biconditional {a b a' b' : Object} {p q : Option Place} :
    alike dn (.biconditional a b p) (.biconditional a' b' q) = true ↔
      alike dn a a' = true ∧ alike dn b b' = true ∨ alike dn a b' = true ∧ alike dn b a' = true := by
  simp [alike_iff_parts (f := .biconditional a b p), Parts, alike_iff]

theorem alike_junction {junctor : Junctor} {fs gs : List Object} {p q : Option Place} :
    alike dn (.junction junctor fs p) (.junction junctor gs q) = true ↔
      ∃ paired, paired.Perm gs ∧ List.Forall₂ (fun f g => alike dn f g = true) fs paired := by
  simp [alike_iff_parts (f := .junction junctor fs p), Parts, alike_iff]

theorem alike_negation {p q : Option Place} (hfg : alike dn f g = true) :
    alike dn (.negation f p) (.negation g q) = true := by
  cases dn with
  | true => exact Like.negation hfg
  | false =>
    rw [alike_iff] at hfg
    rw [alike_iff_parts]
    exact ⟨g, q, rfl, hfg⟩

theorem like_conditional {a c a' c' : Object} {p q : Option Place} :
    Like (.conditional a c p) (.conditional a' c' q) ↔ Like a a' ∧ Like c c' :=
  alike_conditional

theorem like_junction {junctor : Junctor} {fs gs : List Object} {p q : Option Place} :
    Like (.junction junctor fs p) (.junction junctor gs q) ↔
      ∃ paired, paired.Perm gs ∧ List.Forall₂ Like fs paired :=
  alike_junction

theorem Like.exists_conditional {a c : Object} {p : Option Place} (hfg : Like (.conditional a c p) g) :
    ∃ a' c' q, g.core = .conditional a' c' q ∧ Like a a' ∧ Like c c' := by
  rw [like_iff_parts, Parts, face_conditional] at hfg
  obtain ⟨a', c', q, hg, ha, hc⟩ := hfg
  exact ⟨a', c', q, hg, alike_iff.mpr ha, alike_iff.mpr hc⟩

theorem Like.exists_junction {junctor : Junctor} {fs : List Object} {p : Option Place}
    (hfg : Like (.junction junctor fs p) g) : ∃ gs paired q, g.core = .junction junctor gs q ∧
      paired.Perm gs ∧ List.Forall₂ Like fs paired := by
  rw [like_iff_parts, Parts, face_junction] at hfg
  obtain ⟨gs, q, hg, paired, hperm, hpairs⟩ := hfg
  exact ⟨gs, paired, q, hg, hperm, hpairs.imp fun _ _ => alike_iff.mpr⟩

/-! ## Junctions -/

theorem junctsUnder_junction (junctor : Junctor) (fs : List Object) (p : Option Place) :
    junctsUnder junctor (.junction junctor fs p) = fs := if_pos rfl

/-- An object that is no junction of a kind contributes itself to such a junction. -/
theorem junctsUnder_eq_singleton {junctor : Junctor}
    (h : ∀ inner p, f ≠ .junction junctor inner p) : junctsUnder junctor f = [f] := by
  cases f with
  | junction junctor' juncts p =>
    have hne : junctor' ≠ junctor := fun heq => h juncts p (by rw [heq])
    rw [junctsUnder, if_neg hne]
  | _ => rfl

/-- Whether an object is, as it stands, a junction of a kind. -/
def joinedBy (junctor : Junctor) : Object → Bool
  | .junction inner _ _ => decide (inner = junctor)
  | _ => false

theorem joinedBy_iff {junctor : Junctor} :
    joinedBy junctor f = true ↔ ∃ fs p, f = .junction junctor fs p := by
  cases f with
  | junction inner fs p => simp [joinedBy]
  | _ => simp [joinedBy]

theorem junctsUnder_of_not_joined {junctor : Junctor} (h : joinedBy junctor f = false) :
    junctsUnder junctor f = [f] :=
  junctsUnder_eq_singleton fun fs p heq => by simp [heq, joinedBy] at h

/-- Of two objects that are alike and of one kind, both are junctions or neither is. -/
theorem joinedBy_eq_of_kind (junctor : Junctor) (hfg : alike dn f g = true)
    (hkind : f.kind = g.kind) : joinedBy junctor f = joinedBy junctor g := by
  have hjoined : ∀ {f g : Object}, alike dn f g = true → f.kind = g.kind →
      joinedBy junctor f = true → joinedBy junctor g = true := by
    intro f g hfg hkind hf
    obtain ⟨fs, p, rfl⟩ := joinedBy_iff.mp hf
    rw [alike_iff_parts, Parts, face_junction] at hfg
    obtain ⟨gs, q, hg, _⟩ := hfg
    cases g with
    | junction =>
      rw [face_junction] at hg
      rw [hg]
      exact hf
    | _ => cases hkind
  rw [Bool.eq_iff_iff]
  exact ⟨hjoined hfg hkind, hjoined (alike_symm hfg) hkind.symm⟩

/-- What two objects that are alike contribute to a junction is alike, if both are taken apart or
neither is. -/
theorem forall₂_junctsUnder (junctor : Junctor) (hfg : alike dn f g = true)
    (hjoined : joinedBy junctor f = joinedBy junctor g) :
    ∃ paired, paired.Perm (junctsUnder junctor g) ∧
      List.Forall₂ (fun f g => alike dn f g = true) (junctsUnder junctor f) paired := by
  cases hf : joinedBy junctor f with
  | true =>
    obtain ⟨fs, p, rfl⟩ := joinedBy_iff.mp hf
    obtain ⟨gs, q, rfl⟩ := joinedBy_iff.mp (hjoined.symm.trans hf)
    rw [junctsUnder_junction, junctsUnder_junction]
    exact alike_junction.mp hfg
  | false =>
    rw [junctsUnder_of_not_joined hf, junctsUnder_of_not_joined (hjoined.symm.trans hf)]
    exact ⟨[g], .refl _, .cons hfg .nil⟩

/-- **Junctions of alike parts are alike**, if each two parts are taken apart on both sides or on
neither. -/
theorem alike_junctionOf {junctor : Junctor} {fs gs : List Object}
    (h : List.Forall₂ (fun f g => alike dn f g = true ∧ joinedBy junctor f = joinedBy junctor g)
      fs gs) : alike dn (junctionOf junctor fs) (junctionOf junctor gs) = true := by
  refine alike_junction.mpr ?_
  induction h with
  | nil => exact ⟨[], .refl _, .nil⟩
  | cons hfg _ ih =>
    obtain ⟨paired, hperm, hpairs⟩ := ih
    obtain ⟨first, hfirst, hpairs'⟩ := forall₂_junctsUnder junctor hfg.1 hfg.2
    rw [List.flatMap_cons, List.flatMap_cons]
    exact ⟨first ++ paired, hfirst.append hperm, List.rel_append hpairs' hpairs⟩

/-- Junctions of alike parts are alike, if each two parts are of one kind. -/
theorem like_junctionOf {junctor : Junctor} {fs gs : List Object}
    (h : List.Forall₂ (fun f g => Like f g ∧ f.kind = g.kind) fs gs) :
    Like (junctionOf junctor fs) (junctionOf junctor gs) :=
  alike_junctionOf (h.imp fun _ _ hfg => ⟨hfg.1, joinedBy_eq_of_kind junctor hfg.1 hfg.2⟩)

end Object

/-! ## Substitution -/

namespace Formula

/-- A formula built by negations, junctions and conditionals. -/
inductive Schematic : Formula → Prop
  | letter (s : Symbol) : Schematic (.letter s)
  | negation {f : Formula} : Schematic f → Schematic (.negation f)
  | junction {junctor : Junctor} {fs : List Formula} : (∀ f ∈ fs, Schematic f) →
      Schematic (.junction junctor fs)
  | conditional {p q : Formula} : Schematic p → Schematic q → Schematic (.conditional p q)

theorem schematic_negation_iff {f : Formula} : Schematic (.negation f) ↔ Schematic f :=
  ⟨fun | .negation h => h, .negation⟩

theorem schematic_junction_iff {junctor : Junctor} {fs : List Formula} :
    Schematic (.junction junctor fs) ↔ ∀ f ∈ fs, Schematic f :=
  ⟨fun | .junction h => h, .junction⟩

theorem schematic_conditional_iff {p q : Formula} :
    Schematic (.conditional p q) ↔ Schematic p ∧ Schematic q :=
  ⟨fun | .conditional hp hq => ⟨hp, hq⟩, fun h => .conditional h.1 h.2⟩

end Formula

namespace Object

variable {source : List Symbol} {target target' : List (Option Object)} {f g : Object}

open Formula (Schematic)

theorem substituteAll_eq (ts : List Formula) :
    substituteAll source target ts = ts.map (substitute source target) := by
  induction ts with
  | nil => rfl
  | cons t ts ih => rw [substituteAll, ih]; rfl

/-- What stands for a symbol, as a formula. -/
theorem replacementFor_formula (s : Symbol) :
    replacementFor source (target.map (Option.map formula)) s =
      (replacementFor source target s).map formula := by
  induction source generalizing target with
  | nil => simp [replacementFor]
  | cons t source ih =>
    cases target with
    | nil => simp [replacementFor]
    | cons slot target =>
      simp only [List.map_cons, replacementFor]
      split
      · rfl
      · exact ih

/-- **What is built from objects is, as a formula, the instance by their formulas.** -/
@[simp] theorem formula_substitute (t : Formula) : (substitute source target t).formula =
    t.substitute source (target.map (Option.map formula)) := by
  induction t using Formula.inductionOn with
  | letter s =>
    rw [substitute, Formula.substitute, replacementFor_formula]
    cases replacementFor source target s <;> rfl
  | predicate name args ih =>
    rw [substitute, substituteAll_eq, Formula.substitute, Formula.substituteAll_eq, formula_predicate,
      List.map_map]
    exact congrArg _ (List.map_congr_left ih)
  | junction junctor juncts ih =>
    rw [substitute, substituteAll_eq, Formula.substitute, Formula.substituteAll_eq, formula_junctionOf,
      List.map_map]
    exact congrArg _ (List.map_congr_left ih)
  | conditional a c iha ihc => rw [substitute, formula_conditional, iha, ihc, Formula.substitute]
  | biconditional a b iha ihb => rw [substitute, formula_biconditional, iha, ihb, Formula.substitute]
  | negation t ih => rw [substitute, formula_negation, ih, Formula.substitute]
  | quantified q x body ih => rw [substitute, formula_quantified, ih, Formula.substitute]
  | identity a b equal iha ihb => rw [substitute, formula_identity, iha, ihb, Formula.substitute]

/-- **Two cores are akin** if they are alike. -/
structure Akin (f g : Object) : Prop where
  left : f.core = f
  right : g.core = g
  like : Like f g

theorem Akin.kind (hfg : Akin f g) : f.kind = g.kind := by
  have hkind := hfg.like.kind_core
  rwa [hfg.left, hfg.right] at hkind

/-- **What is akin may be put for what it is akin to**: instances of a formula are alike, and of one
kind, if they differ in what is akin. -/
theorem like_substitute
    (h : ∀ s, Option.Rel Akin (replacementFor source target s) (replacementFor source target' s))
    {t : Formula} (ht : Schematic t) :
    Like (substitute source target t) (substitute source target' t) ∧
      (substitute source target t).kind = (substitute source target' t).kind := by
  induction ht with
  | letter s =>
    have hrel := h s
    rw [substitute, substitute]
    generalize replacementFor source target s = e at hrel ⊢
    generalize replacementFor source target' s = e' at hrel ⊢
    cases hrel with
    | none => exact ⟨.refl _, rfl⟩
    | some hakin => exact ⟨hakin.like, hakin.kind⟩
  | negation _ ih =>
    rw [substitute, substitute]
    exact ⟨ih.1.negation, rfl⟩
  | junction _ ih =>
    rw [substitute, substitute, substituteAll_eq, substituteAll_eq]
    refine ⟨like_junctionOf ?_, rfl⟩
    -- instances of one part are of one kind, so both are taken apart or neither is
    rw [List.forall₂_map_left_iff, List.forall₂_map_right_iff, List.forall₂_same]
    exact ih
  | conditional _ _ ihp ihq =>
    rw [substitute, substitute]
    exact ⟨like_conditional.mpr ⟨ihp.1, ihq.1⟩, rfl⟩

end Object

end ProofSheet

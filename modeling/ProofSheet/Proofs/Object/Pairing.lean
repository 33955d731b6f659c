import Mathlib.Data.List.FinRange
import ProofSheet.Proofs.Formula.Correspondence
import ProofSheet.Proofs.Object.Claiming
import ProofSheet.Proofs.Object.Parts

/-!
# Partners by bijection

Two junctions are alike if their juncts can be paired off, one to one, so that partners are alike. The
comparison does not look for such a pairing: each junct claims the first free partner alike to it, and
no claim is taken back.

* `Object.Paired`: **the relation with bijections**, clause by clause on the faces of two objects. Its
  first clause passes over two parts that are one object.
* `Object.paired_iff_parts`: either that clause applies, or the parts are paired off.
* `Object.Paired.symm`, `Object.Paired.trans`: the relation is symmetric and transitive.
* `Object.alike_iff_paired`: **claiming finds a pairing wherever there is one.**
-/

namespace ProofSheet

/-! ## Permutations and bijections -/

section Lists

variable {α : Type} {R : α → α → Prop} {ls rs : List α}

theorem forall₂_iff_fin : List.Forall₂ R ls rs ↔
    ∃ hlen : ls.length = rs.length, ∀ i : Fin ls.length, R (ls.get i) (rs.get (i.cast hlen)) := by
  rw [List.forall₂_iff_get]
  constructor
  · rintro ⟨hlen, h⟩
    exact ⟨hlen, fun i => h i i.isLt (hlen ▸ i.isLt)⟩
  · rintro ⟨hlen, h⟩
    exact ⟨hlen, fun i hi _ => h ⟨i, hi⟩⟩

variable [DecidableEq α]

/-- The bijection between the places of two lists that are permutations of each other. -/
def placesOf (h : ls.Perm rs) : Fin ls.length ≃ Fin rs.length where
  toFun := h.idxBij
  invFun := h.symm.idxBij
  left_inv := h.idxBij_rightInverse_idxBij_symm
  right_inv := h.idxBij_leftInverse_idxBij_symm

theorem get_placesOf (h : ls.Perm rs) (i : Fin ls.length) : rs.get (placesOf h i) = ls.get i :=
  h.getElem_idxBij_eq_getElem i

/-- **A pairing is a permutation of one side, or a bijection between the places of both.** -/
theorem exists_perm_iff_exists_equiv :
    (∃ paired, paired.Perm rs ∧ List.Forall₂ R ls paired) ↔
      ∃ σ : Fin ls.length ≃ Fin rs.length, ∀ i, R (ls.get i) (rs.get (σ i)) := by
  constructor
  · rintro ⟨paired, hperm, hpaired⟩
    obtain ⟨hlen, h⟩ := forall₂_iff_fin.mp hpaired
    refine ⟨(finCongr hlen).trans (placesOf hperm), fun i => ?_⟩
    rw [Equiv.trans_apply, get_placesOf]
    exact h i
  · rintro ⟨σ, h⟩
    have hlen : ls.length = rs.length := Fin.equiv_iff_eq.mp ⟨σ⟩
    -- the partners, in the order of the left-hand side
    let places : Equiv.Perm (Fin rs.length) := (finCongr hlen).symm.trans σ
    refine ⟨List.ofFn (rs.get ∘ places), ?_, forall₂_iff_fin.mpr ⟨by simp [hlen], fun i => ?_⟩⟩
    · have hperm := Equiv.Perm.ofFn_comp_perm places rs.get
      rwa [List.ofFn_get] at hperm
    · rw [List.get_ofFn]
      exact h i

end Lists

namespace Object

variable {dn : Bool} {bound : BoundPairs}

open BoundPairs (Linked Proper Chained Matched)
open Formula (forall₂_of_mem)

/-- **Two objects paired off part by part** under the letters bound around them. An object is paired with
itself if each of these letters is bound together with itself. Juncts are paired by any bijection, and
the sides of biconditionals and identities straight or crossed. -/
inductive Paired (dn : Bool) : BoundPairs → Object → Object → Prop
  | one {bound : BoundPairs} {o : Object} (h : bound.Matched) : Paired dn bound o o
  | letter {bound : BoundPairs} {l r : Object} {s t : Symbol} {p q : Option Place}
      (hl : face dn l = .letter s p) (hr : face dn r = .letter t q)
      (h : bound.matchLetters s t = true) : Paired dn bound l r
  | predicate {bound : BoundPairs} {l r : Object} {name : Symbol} {args args' : List Object}
      {p q : Option Place} (hl : face dn l = .predicate name args p)
      (hr : face dn r = .predicate name args' q) (hlen : args.length = args'.length)
      (h : ∀ i : Fin args.length, Paired dn bound (args.get i) (args'.get (i.cast hlen))) :
      Paired dn bound l r
  | junction {bound : BoundPairs} {l r : Object} {junctor : Junctor} {juncts juncts' : List Object}
      {p q : Option Place} (hl : face dn l = .junction junctor juncts p)
      (hr : face dn r = .junction junctor juncts' q) (σ : Fin juncts.length ≃ Fin juncts'.length)
      (h : ∀ i, Paired dn bound (juncts.get i) (juncts'.get (σ i))) : Paired dn bound l r
  | conditional {bound : BoundPairs} {l r a c a' c' : Object} {p q : Option Place}
      (hl : face dn l = .conditional a c p) (hr : face dn r = .conditional a' c' q)
      (ha : Paired dn bound a a') (hc : Paired dn bound c c') : Paired dn bound l r
  | biconditional {bound : BoundPairs} {l r a b a' b' : Object} {p q : Option Place}
      (hl : face dn l = .biconditional a b p) (hr : face dn r = .biconditional a' b' q)
      (ha : Paired dn bound a a') (hb : Paired dn bound b b') : Paired dn bound l r
  | biconditionalCrossed {bound : BoundPairs} {l r a b a' b' : Object} {p q : Option Place}
      (hl : face dn l = .biconditional a b p) (hr : face dn r = .biconditional a' b' q)
      (ha : Paired dn bound a b') (hb : Paired dn bound b a') : Paired dn bound l r
  | negation {bound : BoundPairs} {l r o o' : Object} {p q : Option Place}
      (hl : face dn l = .negation o p) (hr : face dn r = .negation o' q)
      (h : Paired dn bound o o') : Paired dn bound l r
  | quantified {bound : BoundPairs} {l r body body' : Object} {k : Quantifier} {x x' : Symbol}
      {p q : Option Place} (hl : face dn l = .quantified k x body p)
      (hr : face dn r = .quantified k x' body' q) (hfresh : bound.clashes x x' = false)
      (h : Paired dn ((x, x') :: bound) body body') : Paired dn bound l r
  | identity {bound : BoundPairs} {l r a b a' b' : Object} {equal : Bool} {p q : Option Place}
      (hl : face dn l = .identity a b equal p) (hr : face dn r = .identity a' b' equal q)
      (ha : Paired dn bound a a') (hb : Paired dn bound b b') : Paired dn bound l r
  | identityCrossed {bound : BoundPairs} {l r a b a' b' : Object} {equal : Bool} {p q : Option Place}
      (hl : face dn l = .identity a b equal p) (hr : face dn r = .identity a' b' equal q)
      (ha : Paired dn bound a b') (hb : Paired dn bound b a') : Paired dn bound l r

/-! ## One step of the relation -/

/-- **The parts of two objects are paired off** by a relation, whether or not the two are one. -/
def Parts (dn : Bool) (R : BoundPairs → Object → Object → Prop) (bound : BoundPairs) (l r : Object) :
    Prop :=
  match face dn l with
  | .letter s _ => ∃ t q, face dn r = .letter t q ∧ bound.Linked s t
  | .predicate name args _ =>
    ∃ args' q, face dn r = .predicate name args' q ∧ List.Forall₂ (R bound) args args'
  | .junction junctor juncts _ =>
    ∃ juncts' q, face dn r = .junction junctor juncts' q ∧
      ∃ paired, paired.Perm juncts' ∧ List.Forall₂ (R bound) juncts paired
  | .conditional a c _ =>
    ∃ a' c' q, face dn r = .conditional a' c' q ∧ R bound a a' ∧ R bound c c'
  | .biconditional a b _ =>
    ∃ a' b' q, face dn r = .biconditional a' b' q ∧
      (R bound a a' ∧ R bound b b' ∨ R bound a b' ∧ R bound b a')
  | .negation o _ => ∃ o' q, face dn r = .negation o' q ∧ R bound o o'
  | .quantified k x body _ =>
    ∃ x' body' q, face dn r = .quantified k x' body' q ∧ bound.clashes x x' = false ∧
      R ((x, x') :: bound) body body'
  | .identity a b equal _ =>
    ∃ a' b' q, face dn r = .identity a' b' equal q ∧
      (R bound a a' ∧ R bound b b' ∨ R bound a b' ∧ R bound b a')

/-- Parts are read off the faces. -/
theorem Parts.of_faces {R : BoundPairs → Object → Object → Prop} {l l' r r' : Object}
    (hl : face dn l' = face dn l) (hr : face dn r' = face dn r) (h : Parts dn R bound l r) :
    Parts dn R bound l' r' := by
  unfold Parts at h ⊢
  rw [hl, hr]
  exact h

theorem Paired.of_parts {l r : Object} (h : Parts dn (Paired dn) bound l r) : Paired dn bound l r := by
  unfold Parts at h
  cases hl : face dn l with
  | letter s p =>
    obtain ⟨t, q, hr, h⟩ := by simpa only [hl] using h
    exact .letter hl hr h
  | predicate name args p =>
    obtain ⟨args', q, hr, h⟩ := by simpa only [hl] using h
    obtain ⟨hlen, h⟩ := forall₂_iff_fin.mp h
    exact .predicate hl hr hlen h
  | junction junctor juncts p =>
    obtain ⟨juncts', q, hr, h⟩ := by simpa only [hl] using h
    obtain ⟨σ, h⟩ := exists_perm_iff_exists_equiv.mp h
    exact .junction hl hr σ h
  | conditional a c p =>
    obtain ⟨a', c', q, hr, ha, hc⟩ := by simpa only [hl] using h
    exact .conditional hl hr ha hc
  | biconditional a b p =>
    obtain ⟨a', b', q, hr, ⟨ha, hb⟩ | ⟨ha, hb⟩⟩ := by simpa only [hl] using h
    · exact .biconditional hl hr ha hb
    · exact .biconditionalCrossed hl hr ha hb
  | negation o p =>
    obtain ⟨o', q, hr, h⟩ := by simpa only [hl] using h
    exact .negation hl hr h
  | quantified k x body p =>
    obtain ⟨x', body', q, hr, hfresh, h⟩ := by simpa only [hl] using h
    exact .quantified hl hr hfresh h
  | identity a b equal p =>
    obtain ⟨a', b', q, hr, ⟨ha, hb⟩ | ⟨ha, hb⟩⟩ := by simpa only [hl] using h
    · exact .identity hl hr ha hb
    · exact .identityCrossed hl hr ha hb

/-- **Two objects are paired if they are one, under letters bound to themselves, or if their parts
are paired off.** -/
theorem paired_iff_parts {l r : Object} : Paired dn bound l r ↔
    (l = r ∧ bound.Matched) ∨ Parts dn (Paired dn) bound l r := by
  constructor
  · intro h
    cases h with
    | one h => exact .inl ⟨rfl, h⟩
    | letter hl hr h =>
      right
      simp only [Parts, hl]
      exact ⟨_, _, hr, h⟩
    | predicate hl hr hlen h =>
      right
      simp only [Parts, hl]
      exact ⟨_, _, hr, forall₂_iff_fin.mpr ⟨hlen, h⟩⟩
    | junction hl hr σ h =>
      right
      simp only [Parts, hl]
      exact ⟨_, _, hr, exists_perm_iff_exists_equiv.mpr ⟨σ, h⟩⟩
    | conditional hl hr ha hc =>
      right
      simp only [Parts, hl]
      exact ⟨_, _, _, hr, ha, hc⟩
    | biconditional hl hr ha hb =>
      right
      simp only [Parts, hl]
      exact ⟨_, _, _, hr, .inl ⟨ha, hb⟩⟩
    | biconditionalCrossed hl hr ha hb =>
      right
      simp only [Parts, hl]
      exact ⟨_, _, _, hr, .inr ⟨ha, hb⟩⟩
    | negation hl hr h =>
      right
      simp only [Parts, hl]
      exact ⟨_, _, hr, h⟩
    | quantified hl hr hfresh h =>
      right
      simp only [Parts, hl]
      exact ⟨_, _, _, hr, hfresh, h⟩
    | identity hl hr ha hb =>
      right
      simp only [Parts, hl]
      exact ⟨_, _, _, hr, .inl ⟨ha, hb⟩⟩
    | identityCrossed hl hr ha hb =>
      right
      simp only [Parts, hl]
      exact ⟨_, _, _, hr, .inr ⟨ha, hb⟩⟩
  · rintro (⟨rfl, h⟩ | h)
    · exact .one h
    · exact .of_parts h

/-! ## Symmetry and transitivity -/

/-- **Pairing is symmetric.** -/
theorem Paired.symm (hb : bound.Proper) {l r : Object} (h : Paired dn bound l r) :
    Paired dn bound.swap r l := by
  induction h with
  | one h => exact .one h.swap
  | letter hl hr h => exact .letter hr hl (hb.linked_swap.mpr h)
  | predicate hl hr hlen _ ih => exact .predicate hr hl hlen.symm fun i => ih (i.cast hlen.symm) hb
  | junction hl hr σ _ ih =>
    refine .junction hr hl σ.symm fun i => ?_
    simpa using ih (σ.symm i) hb
  | conditional hl hr _ _ iha ihc => exact .conditional hr hl (iha hb) (ihc hb)
  | biconditional hl hr _ _ iha ihb => exact .biconditional hr hl (iha hb) (ihb hb)
  | biconditionalCrossed hl hr _ _ iha ihb => exact .biconditionalCrossed hr hl (ihb hb) (iha hb)
  | negation hl hr _ ih => exact .negation hr hl (ih hb)
  | @quantified bound _ _ _ _ _ x x' _ _ hl hr hfresh _ ih =>
    have hback : bound.swap.clashes x' x = false := (BoundPairs.clashes_swap bound x x').trans hfresh
    exact .quantified hr hl hback (ih (hb.cons hfresh))
  | identity hl hr _ _ iha ihb => exact .identity hr hl (iha hb) (ihb hb)
  | identityCrossed hl hr _ _ iha ihb => exact .identityCrossed hr hl (ihb hb) (iha hb)

/-- The second of two pairings may be passed over. -/
theorem Paired.trans_of_parts {b₁ b₂ b₃ : BoundPairs} (hch : Chained b₁ b₂ b₃) {l m r : Object}
    (hlm : Paired dn b₁ l m) (hmr : Paired dn b₂ m r)
    (hparts : Parts dn (Paired dn) b₂ m r → Paired dn b₃ l r) : Paired dn b₃ l r := by
  obtain ⟨rfl, hmatched⟩ | h := paired_iff_parts.mp hmr
  · rw [hch.eq_left hmatched]
    exact hlm
  · exact hparts h

/-- **Pairing is transitive.** -/
theorem Paired.trans {b₁ b₂ b₃ : BoundPairs} (hch : Chained b₁ b₂ b₃) {l m r : Object}
    (hlm : Paired dn b₁ l m) (hmr : Paired dn b₂ m r) : Paired dn b₃ l r := by
  -- the face of the middle object is known, and with it that of the one on the right
  induction hlm generalizing b₂ b₃ r with
  | one h =>
    rw [hch.eq_right h]
    exact hmr
  | letter hl hm h =>
    refine .trans_of_parts hch (.letter hl hm h) hmr fun hparts => ?_
    simp only [Parts, hm] at hparts
    obtain ⟨u, q, hr, hu⟩ := hparts
    exact .letter hl hr (hch.linked h hu)
  | predicate hl hm hlen h ih =>
    refine .trans_of_parts hch (.predicate hl hm hlen h) hmr fun hparts => ?_
    simp only [Parts, hm] at hparts
    obtain ⟨args'', q, hr, hargs⟩ := hparts
    obtain ⟨hlen', h'⟩ := forall₂_iff_fin.mp hargs
    exact .predicate hl hr (hlen.trans hlen') fun i => ih i hch (h' (i.cast hlen))
  | junction hl hm σ h ih =>
    refine .trans_of_parts hch (.junction hl hm σ h) hmr fun hparts => ?_
    simp only [Parts, hm] at hparts
    obtain ⟨juncts'', q, hr, hjuncts⟩ := hparts
    obtain ⟨σ', h'⟩ := exists_perm_iff_exists_equiv.mp hjuncts
    exact .junction hl hr (σ.trans σ') fun i => ih i hch (h' (σ i))
  | conditional hl hm ha hc iha ihc =>
    refine .trans_of_parts hch (.conditional hl hm ha hc) hmr fun hparts => ?_
    simp only [Parts, hm] at hparts
    obtain ⟨a'', c'', q, hr, ha', hc'⟩ := hparts
    exact .conditional hl hr (iha hch ha') (ihc hch hc')
  | biconditional hl hm ha hb iha ihb =>
    refine .trans_of_parts hch (.biconditional hl hm ha hb) hmr fun hparts => ?_
    simp only [Parts, hm] at hparts
    obtain ⟨a'', b'', q, hr, ⟨ha', hb'⟩ | ⟨ha', hb'⟩⟩ := hparts
    · exact .biconditional hl hr (iha hch ha') (ihb hch hb')
    · exact .biconditionalCrossed hl hr (iha hch ha') (ihb hch hb')
  | biconditionalCrossed hl hm ha hb iha ihb =>
    refine .trans_of_parts hch (.biconditionalCrossed hl hm ha hb) hmr fun hparts => ?_
    simp only [Parts, hm] at hparts
    obtain ⟨a'', b'', q, hr, ⟨ha', hb'⟩ | ⟨ha', hb'⟩⟩ := hparts
    · exact .biconditionalCrossed hl hr (iha hch hb') (ihb hch ha')
    · exact .biconditional hl hr (iha hch hb') (ihb hch ha')
  | negation hl hm h ih =>
    refine .trans_of_parts hch (.negation hl hm h) hmr fun hparts => ?_
    simp only [Parts, hm] at hparts
    obtain ⟨o'', q, hr, h'⟩ := hparts
    exact .negation hl hr (ih hch h')
  | quantified hl hm hfresh h ih =>
    refine .trans_of_parts hch (.quantified hl hm hfresh h) hmr fun hparts => ?_
    simp only [Parts, hm] at hparts
    obtain ⟨x'', body'', q, hr, hfresh', h'⟩ := hparts
    exact .quantified hl hr (hch.clashes hfresh hfresh') (ih (hch.cons hfresh hfresh') h')
  | identity hl hm ha hb iha ihb =>
    refine .trans_of_parts hch (.identity hl hm ha hb) hmr fun hparts => ?_
    simp only [Parts, hm] at hparts
    obtain ⟨a'', b'', q, hr, ⟨ha', hb'⟩ | ⟨ha', hb'⟩⟩ := hparts
    · exact .identity hl hr (iha hch ha') (ihb hch hb')
    · exact .identityCrossed hl hr (iha hch ha') (ihb hch hb')
  | identityCrossed hl hm ha hb iha ihb =>
    refine .trans_of_parts hch (.identityCrossed hl hm ha hb) hmr fun hparts => ?_
    simp only [Parts, hm] at hparts
    obtain ⟨a'', b'', q, hr, ⟨ha', hb'⟩ | ⟨ha', hb'⟩⟩ := hparts
    · exact .identityCrossed hl hr (iha hch hb') (ihb hch ha')
    · exact .identity hl hr (iha hch hb') (ihb hch ha')

/-- **Partners are interchangeable**: an object that shares one partner with another shares them
all. -/
theorem Paired.exchange (hb : bound.Proper) {l l' r r' : Object} (h₁ : Paired dn bound l r)
    (h₂ : Paired dn bound l r') (h₃ : Paired dn bound l' r') : Paired dn bound l' r := by
  -- from `l'` to `r'`, back to `l`, and on to `r`
  have hback := h₃.trans hb.chained_swap (h₂.symm hb)
  exact hback.trans hb.chained_diagonal h₁

/-! ## The relation and the comparison -/

theorem isOne_iff {l r : Object} : isOne bound l r = true ↔ l = r ∧ bound.Matched := by
  simp [isOne, BoundPairs.isMatched_iff]

theorem alikeEach_iff : ∀ {ls rs : List Object}, alikeEach dn bound ls rs = true ↔
    List.Forall₂ (fun l r => alikeUnder dn bound l r = true) ls rs
  | [], [] => by simp [alikeEach]
  | [], _ :: _ => by simp [alikeEach]
  | _ :: _, [] => by simp [alikeEach]
  | l :: ls, r :: rs => by
    rw [alikeEach, Bool.and_eq_true, List.forall₂_cons, alikeEach_iff]
    rfl

/-- The claims of juncts succeed exactly when some pairing of them corresponds. -/
theorem claimEach_iff (hb : bound.Proper) {ls rs : List Object}
    (ih : ∀ l ∈ ls, ∀ r, alikeUnder dn bound l r = true ↔ Paired dn bound l r) :
    (ls.length = rs.length ∧ claimEach dn bound ls (rs.map some) = true) ↔
      ∃ paired, paired.Perm rs ∧ List.Forall₂ (Paired dn bound) ls paired := by
  constructor
  · rintro ⟨hlen, h⟩
    obtain ⟨paired, hperm, hpaired⟩ := claimEach_perm hlen h
    exact ⟨paired, hperm, forall₂_of_mem (fun l hl r => (ih l hl r).mp) hpaired⟩
  · rintro ⟨paired, hperm, hpaired⟩
    refine ⟨hpaired.length_eq.trans hperm.length_eq, ?_⟩
    refine claimEach_complete ?_ ?_ (forall₂_of_mem (fun l hl r => (ih l hl r).mpr) hpaired)
    · intro l hl l' hl' s s' hs hs' hl's'
      rw [ih l hl] at hs hs'
      rw [ih l' hl'] at hl's' ⊢
      exact hs.exchange hb hs' hl's'
    · rw [available_map_some]
      exact hperm.subperm

/-- Objects that are alike are paired, if those that are alike by their parts are. -/
theorem alikeUnder_iff_of_apart {l r : Object}
    (h : alikeApart dn bound l r = true ↔ Parts dn (Paired dn) bound l r) :
    alikeUnder dn bound l r = true ↔ Paired dn bound l r := by
  rw [alikeUnder, Bool.or_eq_true, isOne_iff, h, paired_iff_parts]

/-- **The comparison by parts decides whether the parts are paired off.** -/
theorem alikeApart_iff_parts (l : Object) : ∀ {bound : BoundPairs}, bound.Proper → ∀ r,
    (alikeApart dn bound l r = true ↔ Parts dn (Paired dn) bound l r) := by
  induction l using faceInduction dn with
  | letter s p =>
    intro bound hb r
    rw [alikeApart, Parts, face_letter]
    cases face dn r <;> simp [Linked]
  | predicate name args p ih =>
    intro bound hb r
    rw [alikeApart, Parts, face_predicate]
    have hargs : ∀ args', alikeEach dn bound args args' = true ↔
        List.Forall₂ (Paired dn bound) args args' := by
      intro args'
      rw [alikeEach_iff]
      exact ⟨forall₂_of_mem fun a ha b => (alikeUnder_iff_of_apart (ih a ha hb b)).mp,
        forall₂_of_mem fun a ha b => (alikeUnder_iff_of_apart (ih a ha hb b)).mpr⟩
    cases face dn r <;> simp [hargs]
    grind
  | junction junctor juncts p ih =>
    intro bound hb r
    rw [alikeApart, Parts, face_junction]
    cases face dn r with
    | junction junctor' juncts' q =>
      simp only [Bool.and_eq_true, decide_eq_true_eq, beq_iff_eq, Object.junction.injEq, and_assoc]
      -- a pairing that exists is found, since partners of one junct are interchangeable
      rw [claimEach_iff hb fun l hl r => alikeUnder_iff_of_apart (ih l hl hb r)]
      constructor
      · rintro ⟨rfl, paired, hperm, h⟩
        exact ⟨juncts', q, rfl, rfl, rfl, paired, hperm, h⟩
      · rintro ⟨_, _, rfl, rfl, rfl, paired, hperm, h⟩
        exact ⟨rfl, paired, hperm, h⟩
    | _ => simp
  | conditional a c p iha ihc =>
    intro bound hb r
    have ha : ∀ r, _ := fun r => alikeUnder_iff_of_apart (iha hb r)
    have hc : ∀ r, _ := fun r => alikeUnder_iff_of_apart (ihc hb r)
    rw [alikeApart, Parts, face_conditional]
    simp only [alikeUnder] at ha hc
    cases face dn r <;> simp [ha, hc]
  | biconditional a b p iha ihb =>
    intro bound hb r
    have ha : ∀ r, _ := fun r => alikeUnder_iff_of_apart (iha hb r)
    have hb' : ∀ r, _ := fun r => alikeUnder_iff_of_apart (ihb hb r)
    rw [alikeApart, Parts, face_biconditional]
    simp only [alikeUnder] at ha hb'
    cases face dn r <;> simp [ha, hb']
  | negation o p ho ih =>
    intro bound hb r
    have h : ∀ r, _ := fun r => alikeUnder_iff_of_apart (ih hb r)
    simp only [alikeUnder] at h
    rw [Parts, face_negation ho, alikeApart]
    · cases face dn r <;> simp [h]
    · exact fun twice q hdn => ho hdn twice q
  | doubled o p p' hdn ih =>
    intro bound hb r
    subst hdn
    rw [alikeApart, ih hb r]
    exact ⟨Parts.of_faces (core_doubled o p p') rfl, Parts.of_faces (core_doubled o p p').symm rfl⟩
  | quantified k x body p ih =>
    intro bound hb r
    rw [alikeApart, Parts, face_quantified]
    cases face dn r with
    | quantified k' x' body' q =>
      simp only [Bool.and_eq_true, decide_eq_true_eq, Bool.not_eq_true', Object.quantified.injEq]
      constructor
      · rintro ⟨⟨rfl, hc⟩, h⟩
        exact ⟨x', body', q, ⟨rfl, rfl, rfl, rfl⟩, hc,
          (alikeUnder_iff_of_apart (ih (hb.cons hc) body')).mp h⟩
      · rintro ⟨_, _, _, ⟨rfl, rfl, rfl, rfl⟩, hc, h⟩
        exact ⟨⟨rfl, hc⟩, (alikeUnder_iff_of_apart (ih (hb.cons hc) body')).mpr h⟩
    | _ => simp
  | identity a b equal p iha ihb =>
    intro bound hb r
    have ha : ∀ r, _ := fun r => alikeUnder_iff_of_apart (iha hb r)
    have hb' : ∀ r, _ := fun r => alikeUnder_iff_of_apart (ihb hb r)
    rw [alikeApart, Parts, face_identity]
    simp only [alikeUnder] at ha hb'
    cases face dn r <;> simp [ha, hb']
    grind

theorem alikeUnder_iff_paired (hb : bound.Proper) {l r : Object} :
    alikeUnder dn bound l r = true ↔ Paired dn bound l r :=
  alikeUnder_iff_of_apart (alikeApart_iff_parts l hb r)

/-- **Claims succeed wherever some bijection pairs alike juncts.** -/
theorem claimEach_iff_exists_equiv (hb : bound.Proper) {ls rs : List Object}
    (hlen : ls.length = rs.length) : claimEach dn bound ls (rs.map some) = true ↔
      ∃ σ : Fin ls.length ≃ Fin rs.length,
        ∀ i, alikeUnder dn bound (ls.get i) (rs.get (σ i)) = true := by
  have hclaims := @claimEach_iff dn bound hb ls rs fun l _ r => alikeUnder_iff_paired hb
  rw [exists_perm_iff_exists_equiv] at hclaims
  simp only [hlen, true_and] at hclaims
  simp only [alikeUnder_iff_paired hb]
  exact hclaims

/-- **Claiming partners in turn finds a pairing wherever there is one**, at any depth and under any
letters bound on the way: two objects are alike exactly if their parts can be paired off, the juncts of
each junction by some bijection, where parts that are one object are passed over. -/
theorem alike_iff_paired (dn : Bool) :
    (∀ l r, alike dn l r = true ↔ Paired dn [] l r) ∧
    ∀ bound : BoundPairs, bound.Proper →
      (∀ l r, alikeUnder dn bound l r = true ↔ Paired dn bound l r) ∧
      ∀ ls rs : List Object, ls.length = rs.length →
        (claimEach dn bound ls (rs.map some) = true ↔
          ∃ σ : Fin ls.length ≃ Fin rs.length,
            ∀ i, alikeUnder dn bound (ls.get i) (rs.get (σ i)) = true) := by
  refine ⟨fun l r => alikeUnder_iff_paired .nil, fun bound hb => ⟨fun l r => ?_, fun ls rs hlen => ?_⟩⟩
  · exact alikeUnder_iff_paired hb
  · exact claimEach_iff_exists_equiv hb hlen

/-- The object `(∀x)Fx` at a place of its own. -/
def sharedPart : Object :=
  .quantified .universal 'x' (.predicate 'F' [.letter 'x']) (some [0])

/-- The first junct of `A ∧ (∀x)Fx ∧ ¬¬A` could be the partner of either `A` in
`A ∧ A ∧ (∀y)Fy`; the juncts are paired off whichever it claims. And `(∀x)(P ∧ A)` is paired with
`(∀x)(A ∧ P)` where `P`, which binds `x` again, is one object. -/
theorem alike_iff_paired_twoPartners :
    Paired true []
        (.junction .conjunction [.letter 'A', .quantified .universal 'x' (.predicate 'F' [.letter 'x']),
          .negation (.negation (.letter 'A'))])
        (.junction .conjunction [.letter 'A', .letter 'A',
          .quantified .universal 'y' (.predicate 'F' [.letter 'y'])]) ∧
      Paired false []
        (.quantified .universal 'x' (.junction .conjunction [sharedPart, .letter 'A']) (some [1]))
        (.quantified .universal 'x' (.junction .conjunction [.letter 'A', sharedPart]) (some [2])) ∧
      claimEach true [('x', 'y')] [.letter 'A', .letter 'x'] ([.letter 'y', .letter 'A'].map some) =
        true := by
  obtain ⟨halike, hunder⟩ := alike_iff_paired true
  refine ⟨(halike _ _).mp (by decide), ((alike_iff_paired false).1 _ _).mp (by decide), ?_⟩
  have hclaims := (hunder [('x', 'y')] (.cons .nil rfl)).2 [.letter 'A', .letter 'x']
    [.letter 'y', .letter 'A'] rfl
  exact hclaims.mpr ⟨Equiv.swap 0 1, by decide⟩

end Object

end ProofSheet

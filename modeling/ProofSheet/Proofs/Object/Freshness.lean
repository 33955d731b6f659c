import ProofSheet.Proofs.Formula.Scope
import ProofSheet.Proofs.Object.Meaning
import ProofSheet.Session

/-!
# Freshness

The quantifier rules ask that a letter is not free in some lines. Alike objects have the same free
letters, so the answer is the same for every way to write a line. A letter that one of them binds again
within its scope the other binds again too, and then the two share a part that does.

* `Formula.boundTwice_mem_flags`: **each letter that is bound again is flagged**, and no other.
* `Object.rebindings_of_paired`: **paired objects bind the same letters again.**
* `Line.Variant`: a line with its formula written in another way.
* `Object.alike_sameFreshness`: alike objects are the same to every test of freshness.
* `Object.boundAgain_flagged`: an object that is alike itself and binds a letter again.
-/

namespace ProofSheet

/-! ## What the scope of a formula says -/

namespace Scope

theorem boundTwice_inj {x y : Symbol} : boundTwice x = boundTwice y ↔ x = y := by
  constructor
  · intro h
    have htext := congrArg (fun flag => flag.text.map String.toList) h
    simpa [boundTwice, Flag.explained] using htext
  · rintro rfl
    rfl

theorem boundTwice_ne_boundAndFree (x y : Symbol) : boundTwice x ≠ boundAndFree y := by
  intro h
  have htext := congrArg (fun flag => flag.text.map String.toList) h
  simp [boundTwice, boundAndFree, Flag.explained] at htext

end Scope

namespace Formula

variable {f l r : Formula}

/-- **Each letter that is bound again is flagged**, and no other. -/
theorem boundTwice_mem_flags {x : Symbol} :
    Scope.boundTwice x ∈ f.scope.flags ↔ x ∈ rebindings [] f := by
  rw [scope, List.mem_append, Scope.gather_flags, List.nil_append]
  constructor
  · rintro (h | h)
    · obtain ⟨y, hy, heq⟩ := List.mem_map.mp h
      rwa [← Scope.boundTwice_inj.mp heq]
    · obtain ⟨y, -, heq⟩ := List.mem_map.mp h
      exact absurd heq.symm (Scope.boundTwice_ne_boundAndFree x y)
  · intro h
    exact .inl (List.mem_map_of_mem h)

theorem scope_free_eq_iff :
    l.scope.free = r.scope.free ↔ ∀ s, FreeIn s l ↔ FreeIn s r := by
  constructor
  · intro h s
    rw [← mem_scope_free, h, mem_scope_free]
  · intro h
    apply Ascending.eq_of_mem_iff (scope_free_ascending l) (scope_free_ascending r)
    intro s
    rw [mem_scope_free, mem_scope_free]
    exact h s

end Formula

/-! ## What paired objects bind again -/

namespace Object

variable {dn : Bool} {bound : BoundPairs}

open Formula (rebindings rebindingsOfAll rebindingsOfAll_eq)

theorem lefts_eq_rights (hb : bound.Matched) : bound.lefts = bound.rights :=
  List.map_congr_left hb

/-- A letter is bound again in some parts if it is in one. -/
theorem mem_rebindingsOfAll {x : Symbol} {around : List Symbol} {os : List Object} :
    x ∈ rebindingsOfAll around (os.map formula) ↔
      Junctor.disjunction.joins (fun o => x ∈ rebindings around o.formula) os := by
  rw [rebindingsOfAll_eq, List.flatMap_map, List.mem_flatMap, Junctor.joins]

theorem mem_rebindings_quantified {x y : Symbol} {around : List Symbol} {q : Quantifier}
    {body : Formula} (hy : y ∉ around) :
    x ∈ rebindings around (.quantified q y body) ↔ x ∈ rebindings (y :: around) body := by
  rw [rebindings, List.mem_append]
  simp [hy]

/-- **Paired objects bind the same letters again**, under the letters bound around them: only what is one
object on both sides may do so. -/
theorem rebindings_of_paired {l r : Object} (h : Paired dn bound l r) (x : Symbol) :
    x ∈ rebindings bound.lefts l.formula ↔ x ∈ rebindings bound.rights r.formula := by
  induction h with
  | one hb => rw [lefts_eq_rights hb]
  | letter hl hr => rw [rebindings_of_face hl, rebindings_of_face hr]; rfl
  | predicate hl hr hlen _ ih =>
    rw [rebindings_of_face hl, rebindings_of_face hr, formula_predicate, formula_predicate,
      rebindings, rebindings, mem_rebindingsOfAll, mem_rebindingsOfAll]
    exact Junctor.joins_forall₂ (forall₂_iff_fin.mpr ⟨hlen, ih⟩)
  | @junction bound _ _ _ _ _ _ _ hl hr σ _ ih =>
    obtain ⟨paired, hperm, hpairs⟩ := (exists_perm_iff_exists_equiv (R := fun o o' =>
      x ∈ rebindings bound.lefts o.formula ↔ x ∈ rebindings bound.rights o'.formula)).mpr ⟨σ, ih⟩
    rw [rebindings_of_face hl, rebindings_of_face hr, formula_junction, formula_junction,
      rebindings, rebindings, mem_rebindingsOfAll, mem_rebindingsOfAll]
    exact (Junctor.joins_forall₂ hpairs).trans (Junctor.joins_perm hperm)
  | conditional hl hr _ _ iha ihb | biconditional hl hr _ _ iha ihb | identity hl hr _ _ iha ihb =>
    rw [rebindings_of_face hl, rebindings_of_face hr]
    simp only [formula_conditional, formula_biconditional, formula_identity, rebindings,
      List.mem_append, iha, ihb]
  | biconditionalCrossed hl hr _ _ iha ihb | identityCrossed hl hr _ _ iha ihb =>
    rw [rebindings_of_face hl, rebindings_of_face hr]
    simp only [formula_biconditional, formula_identity, rebindings, List.mem_append, iha, ihb]
    exact or_comm
  | negation hl hr _ ih =>
    rw [rebindings_of_face hl, rebindings_of_face hr]
    exact ih
  | @quantified bound _ _ _ _ _ x x' _ _ hl hr hc _ ih =>
    have hback := BoundPairs.not_mem_lefts ((BoundPairs.clashes_swap bound x x').trans hc)
    rw [BoundPairs.lefts_swap] at hback
    rw [rebindings_of_face hl, rebindings_of_face hr, formula_quantified, formula_quantified,
      mem_rebindings_quantified (BoundPairs.not_mem_lefts hc), mem_rebindings_quantified hback]
    exact ih

/-- **Alike objects have the same free letters.** -/
theorem free_eq_of_alike {l r : Object} (h : alike dn l r = true) :
    l.formula.scope.free = r.formula.scope.free := by
  refine Formula.scope_free_eq_iff.mpr fun s => ?_
  have hfree := free_iff_of_paired .nil (alike_iff.mp h) (s := s)
  simpa [BoundPairs.lefts, BoundPairs.rights] using hfree

/-- Alike formulas have the same free letters. -/
theorem free_eq_of_formulas {f g : Formula} (h : Formula.Alike dn f g) :
    f.scope.free = g.scope.free := by
  simpa only [Formula.formula_anew] using free_eq_of_alike (alike_anew h)

/-- **Alike objects are flagged for the same letters** that are bound again. -/
theorem boundTwice_mem_iff_of_alike {l r : Object} (h : alike dn l r = true) (x : Symbol) :
    Scope.boundTwice x ∈ l.formula.scope.flags ↔ Scope.boundTwice x ∈ r.formula.scope.flags := by
  rw [Formula.boundTwice_mem_flags, Formula.boundTwice_mem_flags]
  exact rebindings_of_paired (alike_iff.mp h) x

/-- What is alike and shares no part is not flagged for a letter bound again. -/
theorem boundTwice_not_mem_of_sharesNothing {l r : Object} (h : alike dn l r = true)
    (hshare : SharesNothing l r) (x : Symbol) : Scope.boundTwice x ∉ l.formula.scope.flags := by
  have hnil : rebindings [] l.formula = [] := rebindings_of_sharesNothing (alike_iff.mp h) hshare
  rw [Formula.boundTwice_mem_flags, hnil]
  exact List.not_mem_nil

end Object

/-! ## Sheets written in another way -/

/-- **A line written in another way**: a logic line whose formula is alike, as one object to another, or
other text. The label, the premises and the rule are as they may be. -/
inductive Line.Variant (dn : Bool) : Line → Line → Prop
  | logic {line line' : LogicLine} (l r : Object) (hl : l.formula = line.formula)
      (hr : r.formula = line'.formula) (h : Object.alike dn l r = true) :
      Variant dn (.logic line) (.logic line')
  | text (content content' : String) : Variant dn (.text content) (.text content')

namespace Document

variable {dn : Bool} {document document' : Document} {memory memory' : Memory} {index : LineIndex}
  {settings : Settings}

theorem free_of_variants
    (h : List.Forall₂ (Line.Variant dn) document.lines document'.lines) :
    document.scopes.map (Option.map Scope.free) = document'.scopes.map (Option.map Scope.free) := by
  rw [scopes, scopes, List.map_map, List.map_map, ← List.forall₂_eq_eq_eq,
    List.forall₂_map_left_iff, List.forall₂_map_right_iff]
  refine h.imp fun line line' hline => ?_
  cases hline with
  | logic l r hl hr h =>
    have hfree := Object.free_eq_of_alike h
    rw [hl, hr] at hfree
    simp [Line.logic?, hfree]
  | text content content' => rfl

/-- The free letters of the line with a label, in the list of those of all lines. -/
theorem free_scope? (label : Label) :
    ((document.view memory index settings).scope? label).map Scope.free =
      (index.position? label).bind fun position =>
        (document.scopes.map (Option.map Scope.free))[position]?.join := by
  unfold View.scope? view
  cases index.position? label with
  | none => rfl
  | some position =>
    rw [Option.bind_some, List.getElem?_map, Option.join_map_eq_map_join]

/-- **Whether a letter is free in a line** does not depend on how the lines are written. -/
theorem isFreeIn_of_variants
    (h : List.Forall₂ (Line.Variant dn) document.lines document'.lines) (s : Symbol) (label : Label) :
    (document.view memory index settings).isFreeIn s label =
      (document'.view memory' index settings).isFreeIn s label := by
  have heq : ∀ view : View, view.isFreeIn s label =
      (((view.scope? label).map Scope.free).getD []).contains s := by
    intro view
    unfold View.isFreeIn
    cases view.scope? label <;> rfl
  rw [heq, heq, free_scope?, free_scope?, free_of_variants h]

end Document

namespace Object

/-- **Alike objects are the same to every test of freshness.** They have the same free letters, and are
flagged for the same letters bound more than once; if they share no part, for none. So when each line of
a sheet is written in another way, the same letters are found free in the same lines. -/
theorem alike_sameFreshness (dn : Bool) :
    (∀ l r : Object, alike dn l r = true → l.formula.scope.free = r.formula.scope.free ∧
      (∀ x, Scope.boundTwice x ∈ l.formula.scope.flags ↔
        Scope.boundTwice x ∈ r.formula.scope.flags) ∧
      (SharesNothing l r → ∀ x, Scope.boundTwice x ∉ l.formula.scope.flags ∧
        Scope.boundTwice x ∉ r.formula.scope.flags)) ∧
    ∀ document document' : Document,
      List.Forall₂ (Line.Variant dn) document.lines document'.lines →
        ∀ memory memory' index settings labels symbols,
          (document.view memory index settings).freeIn labels symbols =
            (document'.view memory' index settings).freeIn labels symbols := by
  constructor
  · intro l r h
    have hflags := boundTwice_mem_iff_of_alike h
    refine ⟨free_eq_of_alike h, hflags, fun hshare x => ?_⟩
    have hleft := boundTwice_not_mem_of_sharesNothing h hshare x
    exact ⟨hleft, (hflags x).not.mp hleft⟩
  · intro document document' h memory memory' index settings labels symbols
    have hfree : ∀ symbol, (document.view memory index settings).isFreeIn symbol =
        (document'.view memory' index settings).isFreeIn symbol :=
      fun symbol => funext (Document.isFreeIn_of_variants h symbol)
    unfold View.freeIn
    simp only [hfree]

/-- The premise `(∀x)(Fx ∧ a = b)` written as `(∀y)(b = a ∧ ¬¬Fy)`. -/
theorem alike_sameFreshness_renamed :
    (Formula.quantified .universal 'x' (.junction .conjunction
        [.predicate 'F' [.letter 'x'], .identity (.letter 'a') (.letter 'b') true])).scope.free =
      (Formula.quantified .universal 'y' (.junction .conjunction
        [.identity (.letter 'b') (.letter 'a') true,
          .negation (.negation (.predicate 'F' [.letter 'y']))])).scope.free ∧
      ∀ memory memory' index settings labels symbols,
        (Document.view ⟨[.text "a", .logic (.make 1 [1] (.quantified .universal 'x'
          (.junction .conjunction [.predicate 'F' [.letter 'x'],
            .identity (.letter 'a') (.letter 'b') true])) .premise)]⟩ memory index settings).freeIn
              labels symbols =
        (Document.view ⟨[.text "", .logic (.make 1 [1] (.quantified .universal 'y'
          (.junction .conjunction [.identity (.letter 'b') (.letter 'a') true,
            .negation (.negation (.predicate 'F' [.letter 'y']))])) .premise)]⟩
              memory' index settings).freeIn labels symbols := by
  obtain ⟨hfree, hsheets⟩ := alike_sameFreshness true
  have halike : alike true
      (.quantified .universal 'x' (.junction .conjunction
        [.predicate 'F' [.letter 'x'], .identity (.letter 'a') (.letter 'b') true]))
      (.quantified .universal 'y' (.junction .conjunction
        [.identity (.letter 'b') (.letter 'a') true,
          .negation (.negation (.predicate 'F' [.letter 'y']))])) = true := by
    decide
  constructor
  · exact (hfree _ _ halike).1
  · exact hsheets _ _ (.cons (.text _ _) (.cons (.logic _ _ rfl rfl halike) .nil))

/-- `(∀x)(∀x)Fx` is alike itself, and is flagged for binding `x` more than once. -/
theorem boundAgain_flagged :
    alike true (boundAgain 1) (boundAgain 1) = true ∧
      Scope.boundTwice 'x' ∈ (boundAgain 1).formula.scope.flags := by
  decide

end Object

end ProofSheet

import SchemaModel.Proofs.RefChains
/-!
# Which references share a schema number

The store numbers schemas by their reference: the document and the decoded segments of the path.
Two successful `create` calls therefore give one number exactly when their texts form the same
reference, whatever happened to the store between them, as long as it only grew.

The reference is compared segment by segment as text, while the walk into a tree reads an array
position from any spelling of its digits, with leading zeros or a `+`. So `#/a/1` and `#/a/01`
designate the same node and still get two numbers, and a definition reached both ways is two
schemas.
-/

namespace SchemaModel

namespace Store

/-- The reference a text forms in a schema is the same in any store the first one grows into, so
two texts read from schemas of the first store may as well be compared in a later one. -/
theorem keyOf_of_extends {s s' : Store} (hext : Extends s s') {parent : Nat} (hparent : parent < s.size)
    (ref : String) : keyOf s' parent ref = keyOf s parent ref := by
  have hget : s'.get? parent = s.get? parent := by
    obtain ⟨sc, hsc⟩ : ∃ sc, s.get? parent = some sc :=
      ⟨s.schemas[parent], List.getElem?_eq_getElem hparent⟩
    rw [hsc, hext.get? hsc]
  simp only [keyOf, hget, hext.encoding_eq, hext.policy_eq]

/-- A successful `create` returns the number of the schema of its reference. -/
theorem create_lookup {s s' : Store} (hs : s.Consistent) {parent : Nat} (hparent : parent < s.size)
    {ref : String} {i : Nat} (hrun : (create parent ref).run.run s = (.ok i, s')) :
    Extends s s' ∧ ∃ sc, s'.get? i = some sc ∧ keyOf s parent ref = .ok sc.reference := by
  have hext := create_extends hs hparent ref
  rw [hrun] at hext
  exact ⟨hext, create_target hrun⟩

/-- A `create` repeated on a store the first call's result grows into gives the same number: the
text forms the same reference there, and the schema of that reference is already held. -/
theorem create_ok_eq_of_extends {s₀ s₁ s s' : Store} (hs₀ : s₀.Consistent) {parent : Nat}
    (hparent : parent < s₀.size) {ref : String} {i j : Nat}
    (hfirst : (create parent ref).run.run s₀ = (.ok i, s₁)) (hlater : Extends s₁ s)
    (hsecond : (create parent ref).run.run s = (.ok j, s')) : j = i := by
  obtain ⟨hext₁, sc₁, hget₁, hkey₁⟩ := create_lookup hs₀ hparent hfirst
  have hext₀ : Extends s₀ s := hext₁.trans hlater
  obtain ⟨hext₂, sc₂, hget₂, hkey₂⟩ :=
    create_lookup hlater.consistent (Nat.lt_of_lt_of_le hparent hext₀.size_le) hsecond
  -- the text forms one reference in both stores, held as `i` and as `j` in the last one
  rw [keyOf_of_extends hext₀ hparent, hkey₁] at hkey₂
  have hi := lookup_get_of_nodup hext₂.consistent.references_nodup (hext₂.get? (hlater.get? hget₁))
  have hj := lookup_get_of_nodup hext₂.consistent.references_nodup hget₂
  rw [← Except.ok.inj hkey₂, hi] at hj
  exact (Option.some.inj hj).symm

/-- Two successful `create` calls, the second on any store the first one's result grows into,
give the same number exactly when their texts form the same reference, each read in the store its
call ran on: the same document and the same decoded segments. -/
theorem create_ids_eq_iff_references_eq {src : Source} {enc : Encoding} {policy : DecodePolicy}
    {s s₁ s' s₂ : Store} (hreach : Reachable src enc policy s) {p q : Nat} (hp : p < s.size)
    (hq : q < s'.size) {t₁ t₂ : String} {i j : Nat}
    (h₁ : (create p t₁).run.run s = (.ok i, s₁)) (hlater : Extends s₁ s')
    (h₂ : (create q t₂).run.run s' = (.ok j, s₂)) :
    i = j ↔ keyOf s p t₁ = keyOf s' q t₂ := by
  obtain ⟨-, sc₁, hget₁, hkey₁⟩ := create_lookup hreach.consistent.1 hp h₁
  obtain ⟨hext₂, sc₂, hget₂, hkey₂⟩ := create_lookup hlater.consistent hq h₂
  -- both numbers are read in the last store, where each reference has one number
  have hfirst : s₂.get? i = some sc₁ := hext₂.get? (hlater.get? hget₁)
  rw [hkey₁, hkey₂]
  constructor
  · rintro rfl
    rw [hfirst] at hget₂
    rw [Option.some.inj hget₂]
  · intro href
    have hnodup := hext₂.consistent.references_nodup
    have hi := lookup_get_of_nodup hnodup hfirst
    have hj := lookup_get_of_nodup hnodup hget₂
    rw [← Except.ok.inj href, hi] at hj
    exact Option.some.inj hj

/-- A result that reads as `some a` is the success `a`. -/
theorem eq_ok_of_toOption {ε α : Type} {x : Except ε α} {a : α} (h : x.toOption = some a) :
    x = .ok a := by
  cases x with
  | error e => cases h
  | ok b => cases h; rfl

/-- A document with an array under `a`, read through two spellings of its second position,
`#/a/1` and `#/a/01`: both spell position 1 of the array under the key `a`, yet the second
`create` adds a schema of its own. -/
theorem spellings_of_one_position_get_two_ids :
    let src := Source.ofDocuments [("Root.json", .object [("a", .array
      [.object [("type", .string "string")], .object [("type", .string "integer")]])])]
    let s := ((root "Root.json").run.run (Store.empty src .utf8 .lenient)).2
    let r₁ := (create 0 "#/a/1").run.run s
    let r₂ := (create 0 "#/a/01").run.run r₁.2
    Reachable src .utf8 .lenient s ∧
    (keyOf s 0 "#/a/1").toOption = some ⟨"Root.json", ["a", "1"]⟩ ∧
    (keyOf r₁.2 0 "#/a/01").toOption = some ⟨"Root.json", ["a", "01"]⟩ ∧
    Pointer.index? "1" = some 1 ∧ Pointer.index? "01" = some 1 ∧
    r₁.1.toOption = some 1 ∧ r₂.1.toOption = some 2 := by
  intro src s r₁ r₂
  refine ⟨.root _ .empty, ?_⟩
  dsimp only [src, s, r₁, r₂]
  decide +kernel

/-- The two spellings again: the store is reached by its calls, both parents are held, both
calls succeed, and their numbers differ as their references do. -/
theorem spellings_of_one_position_have_two_references :
    let src := Source.ofDocuments [("Root.json", .object [("a", .array
      [.object [("type", .string "string")], .object [("type", .string "integer")]])])]
    let s := ((root "Root.json").run.run (Store.empty src .utf8 .lenient)).2
    let s₁ := ((create 0 "#/a/1").run.run s).2
    let s₂ := ((create 0 "#/a/01").run.run s₁).2
    Reachable src .utf8 .lenient s ∧ 0 < s.size ∧ 0 < s₁.size ∧
      (create 0 "#/a/1").run.run s = (.ok 1, s₁) ∧ Extends s₁ s₁ ∧
      (create 0 "#/a/01").run.run s₁ = (.ok 2, s₂) ∧
      (1 = 2 ↔ keyOf s 0 "#/a/1" = keyOf s₁ 0 "#/a/01") := by
  intro src s s₁ s₂
  have hreach : Reachable src .utf8 .lenient s := .root _ .empty
  have hsize : 0 < s.size := by
    dsimp only [s, src]
    decide +kernel
  have hruns : ((create 0 "#/a/1").run.run s).1.toOption = some 1 ∧
      ((create 0 "#/a/01").run.run s₁).1.toOption = some 2 := by
    dsimp only [s₁, s, src]
    decide +kernel
  have h₁ : (create 0 "#/a/1").run.run s = (.ok 1, s₁) := Prod.ext (eq_ok_of_toOption hruns.1) rfl
  have h₂ : (create 0 "#/a/01").run.run s₁ = (.ok 2, s₂) := Prod.ext (eq_ok_of_toOption hruns.2) rfl
  have hext₁ : Extends s s₁ := by
    have hext := create_extends hreach.consistent.1 hsize "#/a/1"
    rwa [h₁] at hext
  have hsize₁ : 0 < s₁.size := Nat.lt_of_lt_of_le hsize hext₁.size_le
  have hext : Extends s₁ s₁ := Extends.refl hext₁.consistent
  exact ⟨hreach, hsize, hsize₁, h₁, hext, h₂,
    create_ids_eq_iff_references_eq hreach hsize hsize₁ h₁ hext h₂⟩

end Store

end SchemaModel

import BlockCompiler.Exchange
import BlockCompiler.Graph.Document
import BlockCompiler.Proofs.Json.Reading

/-!
# Reading back what was written

A product is read back from its text as it was, whatever its texts are
(`Product.parse?_render`).  A document that was read is read back from the text that it
is written as, if the numbers in its fields are whole (`Document.parse_render`): its
fields are regular because they were read, and writing nests them as deep as they were.
Both go through the tree that the text stands for, one lemma for each kind of part.
-/

namespace BlockCompiler

namespace JsonNumber

/-- The number is a whole number of 64 bits, signed or not, or a zero, which may have a sign. -/
def IsWhole : JsonNumber → Prop
  | .integer n => fits n = true
  | .real x => x = .zero x.negative

theorem legible_zero (negative : Bool) : (real (.zero negative)).Legible := by
  constructor
  · intro seen
    cases negative <;> exact ⟨_, rfl, rfl⟩
  · cases negative <;> rfl

theorem IsWhole.legible {x : JsonNumber} (h : x.IsWhole) : x.Legible := by
  cases x with
  | integer n => exact legible_integer h
  | real x =>
    rw [show x = .zero x.negative from h]
    exact legible_zero x.negative

end JsonNumber

/-! ## Parts of records -/

namespace Json

variable {α : Type} {f : JsonTree → Option α} {write : α → Json}

theorem list?_toTree {xs : List α} (h : ∀ x ∈ xs, f (write x).toTree = some x) :
    JsonTree.list? f (Json.array (xs.map write)).toTree = some xs := by
  rw [toTree, itemTrees_eq_map, List.map_map, JsonTree.list?]
  exact mapM_map_eq_some h

theorem dict?_toTree {d : Dict α} (h : ∀ value ∈ d.values, f (write value).toTree = some value) :
    JsonTree.dict? f (Json.object (d.entries.map fun e => (e.1, write e.2))).toTree = some d := by
  rw [toTree, memberTrees_eq_map, List.map_map]
  exact JsonTree.dict?_entries (fun value => (write value).toTree) d h

theorem numbers_getD_null {P : JsonNumber → Prop} (h : ∀ x, (write x).Numbers P) (x : Option α) :
    ((x.map write).getD .null).Numbers P := by
  cases x with
  | none => exact .null
  | some x => exact h x

/-- What is left out is written as null, and what is there is never null. -/
theorem optional?_toTree (h : ∀ x, f (write x).toTree = some x) (hne : ∀ x, (write x).toTree ≠ .null)
    (x : Option α) : JsonTree.optional? f ((x.map write).getD .null).toTree = some x := by
  cases x with
  | none => rfl
  | some x => simp [JsonTree.optional?, h, hne]

end Json

/-! ## Products -/

namespace Diagnostic

theorem numbers_toJson {P : JsonNumber → Prop} (d : Diagnostic) : d.toJson.Numbers P := by
  simp [toJson]

theorem ofTree?_toJson (d : Diagnostic) : ofTree? d.toJson.toTree = some d := by
  have hparts : d.toJson.toTree.record? partNames =
      some [some (.string d.reason.code), some (.string d.level.name), some (.string d.node),
        some (.string d.nodeType), some (.string d.message)] := rfl
  simp [ofTree?, hparts, JsonTree.choice?, JsonTree.text?, Reason.ofCode?_code, Level.ofName?_name]

end Diagnostic

namespace Product

theorem numbers_toJson {P : JsonNumber → Prop} (p : Product) : p.toJson.Numbers P := by
  simp [toJson, Diagnostic.numbers_toJson]

theorem ofTree?_toJson (p : Product) : ofTree? p.toJson.toTree = some p := by
  have hparts : p.toJson.toTree.record? partNames =
      some [some (.string p.backend), some (.string p.source),
        some (Json.array (p.diagnostics.map Diagnostic.toJson)).toTree] := rfl
  have hdiagnostics : JsonTree.list? Diagnostic.ofTree?
      (Json.array (p.diagnostics.map Diagnostic.toJson)).toTree = some p.diagnostics :=
    Json.list?_toTree fun d _ => d.ofTree?_toJson
  simp [ofTree?, hparts, hdiagnostics, JsonTree.text?]

/-- **A product is read back from its text.** -/
theorem parse?_render (p : Product) : parse? p.render = some p := by
  rw [parse?, render, Json.parse?_pretty p.numbers_toJson, Option.bind_some, ofTree?_toJson]

end Product

/-! ## Documents -/

namespace Record

/-- The numbers in the fields of the record are all in `P`. -/
def Numbers (P : JsonNumber → Prop) (r : Record) : Prop :=
  ∀ value ∈ r.fields.values, value.Numbers P

/-- The fields of the record have the form of values that were read. -/
def Regular (r : Record) : Prop :=
  ∀ value ∈ r.fields.values, value.Regular fieldDepth

theorem numbers_textsJson {P : JsonNumber → Prop} (d : Dict String) : (textsJson d).Numbers P :=
  .object (List.forall_mem_map.mpr fun e _ => .string e.2)

theorem numbers_toJson {P : JsonNumber → Prop} {r : Record} (h : r.Numbers P) :
    r.toJson.Numbers P := by
  have hfields : ∀ e ∈ r.fields.entries, e.2.Numbers P := fun e he => h e.2 (List.mem_map_of_mem he)
  have hnext := Json.numbers_getD_null Json.Numbers.string r.next (P := P)
  simpa [toJson, numbers_textsJson, hnext] using hfields

theorem ofTree?_toJson {r : Record} (hregular : r.Regular) (hnumbers : r.Numbers JsonNumber.Legible) :
    ofTree? r.toJson.toTree = some r := by
  have hparts : r.toJson.toTree.record? partNames =
      some [some (.string r.id), some (.string r.type), some (Json.object r.fields.entries).toTree,
        some (textsJson r.values).toTree, some (textsJson r.statements).toTree,
        some ((r.next.map Json.string).getD .null).toTree] := rfl
  have hfields : JsonTree.dict? (Json.ofTree? fieldDepth) (Json.object r.fields.entries).toTree =
      some r.fields := by
    rw [Json.toTree, Json.memberTrees_eq_map]
    exact JsonTree.dict?_entries Json.toTree r.fields fun value hvalue =>
      Json.ofTree?_toTree (hregular value hvalue) (hnumbers value hvalue)
  have htexts : ∀ d : Dict String, JsonTree.dict? JsonTree.text? (textsJson d).toTree = some d :=
    fun d => Json.dict?_toTree fun _ _ => rfl
  have hnext : JsonTree.optional? JsonTree.text? ((r.next.map Json.string).getD .null).toTree =
      some r.next :=
    Json.optional?_toTree (fun _ => rfl) (fun _ => JsonTree.noConfusion) r.next
  simp [ofTree?, hparts, hfields, htexts, hnext, JsonTree.text?]

/-- The fields of a record are read one by one. -/
theorem exists_of_mem_fields {t : JsonTree} {r : Record} (h : ofTree? t = some r) {value : Json}
    (hvalue : value ∈ r.fields.values) : ∃ part, Json.ofTree? fieldDepth part = some value := by
  rw [ofTree?] at h
  split at h
  · rename_i fields _ _ _ _
    simp only [Option.bind_eq_bind, Option.bind_eq_some_iff, Option.some.injEq] at h
    obtain ⟨_, -, _, -, read, hfields, _, -, _, -, _, -, rfl⟩ := h
    cases fields with
    | none =>
      cases hfields
      cases hvalue
    | some fields =>
      cases fields with
      | object members =>
        obtain ⟨m, -, hm⟩ := JsonTree.exists_of_mem_dict? hfields hvalue
        exact ⟨m.2, hm⟩
      | _ => cases hfields
  · cases h

theorem regular_of_ofTree? {t : JsonTree} {r : Record} (h : ofTree? t = some r) : r.Regular := by
  intro value hvalue
  obtain ⟨part, hpart⟩ := exists_of_mem_fields h hvalue
  exact Json.regular_of_ofTree? hpart

end Record

namespace Document

/-- The numbers in the fields of the document are all in `P`. -/
def Numbers (P : JsonNumber → Prop) (d : Document) : Prop :=
  ∀ r ∈ d.records, r.Numbers P

theorem numbers_toJson {P : JsonNumber → Prop} {d : Document} (h : d.Numbers P) :
    d.toJson.Numbers P := by
  have hroots : ((d.roots.map fun keys => Json.array (keys.map Json.string)).getD .null).Numbers P :=
    Json.numbers_getD_null (by simp) d.roots
  have hrecords : ∀ r ∈ d.records, r.toJson.Numbers P := fun r hr => Record.numbers_toJson (h r hr)
  simpa [toJson, hroots] using hrecords

theorem ofTree?_toJson {d : Document} (hregular : ∀ r ∈ d.records, r.Regular)
    (hnumbers : d.Numbers JsonNumber.Legible) : ofTree? d.toJson.toTree = some d := by
  have hparts : d.toJson.toTree.record? partNames =
      some [some ((d.roots.map fun keys => Json.array (keys.map Json.string)).getD .null).toTree,
        some (Json.array (d.records.map Record.toJson)).toTree] := rfl
  have hroots : JsonTree.optional? (JsonTree.list? JsonTree.text?)
      ((d.roots.map fun keys => Json.array (keys.map Json.string)).getD .null).toTree =
        some d.roots :=
    Json.optional?_toTree (fun _ => Json.list?_toTree fun _ _ => rfl)
      (fun _ => JsonTree.noConfusion) d.roots
  have hrecords : JsonTree.list? Record.ofTree?
      (Json.array (d.records.map Record.toJson)).toTree = some d.records :=
    Json.list?_toTree fun r hr => Record.ofTree?_toJson (hregular r hr) (hnumbers r hr)
  simp [ofTree?, hparts, hroots, hrecords]

theorem regular_of_ofTree? {t : JsonTree} {d : Document} (h : ofTree? t = some d) :
    ∀ r ∈ d.records, r.Regular := by
  intro r hr
  rw [ofTree?] at h
  split at h
  · rename_i nodes _
    simp only [Option.bind_eq_bind, Option.bind_eq_some_iff, Option.some.injEq] at h
    obtain ⟨_, -, records, hrecords, rfl⟩ := h
    cases nodes with
    | none =>
      cases hrecords
      cases hr
    | some nodes =>
      cases nodes with
      | array items =>
        obtain ⟨item, -, hitem⟩ := exists_of_mem_mapM hrecords hr
        exact Record.regular_of_ofTree? hitem
      | _ => cases hrecords
  · cases h

theorem bind_of_parse {text : String} {d : Document} (h : parse text = .ok d) :
    (JsonTree.parse? text).bind ofTree? = some d := by
  rw [parse] at h
  split at h
  · rename_i hsome
    cases h
    exact hsome
  · cases h

/-- **A document that was read is read back from the text that it is written as**, if the numbers in
its fields are whole; so it is written as the same text again. -/
theorem parse_render {text : String} {d : Document} (hread : parse text = .ok d)
    (hwhole : d.Numbers JsonNumber.IsWhole) :
    parse d.render = .ok d ∧ (parse d.render).map render = .ok d.render := by
  have hlegible : d.Numbers JsonNumber.Legible := fun r hr value hvalue =>
    (hwhole r hr value hvalue).imp fun _ => JsonNumber.IsWhole.legible
  have hregular : ∀ r ∈ d.records, r.Regular := by
    obtain ⟨t, -, ht⟩ := Option.bind_eq_some_iff.mp (bind_of_parse hread)
    exact regular_of_ofTree? ht
  have hagain : parse d.render = .ok d := by
    rw [parse, render, Json.parse?_pretty (numbers_toJson hlegible), Option.bind_some,
      ofTree?_toJson hregular hlegible]
  exact ⟨hagain, by rw [hagain]; rfl⟩

/-- A document whose only record has a nested field, with the largest number and a negative zero. -/
def nested : Document where
  roots := some []
  records := [
    { id := "k"
      type := "t"
      fields := {
        entries := [
          ("a", .string "\n😀"),
          ("b", .array [.number (.real (.zero true)),
            .object [("n", .number (.integer 18446744073709551615))]])]
        sorted := by decide } }]

/-- The same document in other words: its record is an array, the fields are out of order, the first
of them comes twice, and a further member does not count. -/
def nestedOtherwise : Json :=
  .object [
    ("roots", .array []),
    ("version", .number (.integer 2)),
    ("nodes", .array [.array [
      .string "k",
      .string "t",
      .object [
        ("b", .array [.number (.real (.zero true)),
          .object [("n", .number (.integer 18446744073709551615))]]),
        ("a", .null),
        ("a", .string "\n😀")]]])]

theorem parse_render_nested :
    parse nestedOtherwise.pretty = .ok nested ∧ nested.Numbers JsonNumber.IsWhole ∧
      parse nested.render = .ok nested ∧ (parse nested.render).map render = .ok nested.render := by
  have hlargest : JsonNumber.fits 18446744073709551615 = true := by decide
  have hsmall : JsonNumber.fits 2 = true := by decide
  have hlegible : nestedOtherwise.Numbers JsonNumber.Legible := by
    refine Json.Numbers.imp (fun _ => JsonNumber.IsWhole.legible) ?_
    simp [nestedOtherwise, JsonNumber.IsWhole, Binary64.zero, hlargest, hsmall]
  have hread : parse nestedOtherwise.pretty = .ok nested := by
    rw [parse, Json.parse?_pretty hlegible]
    rfl
  have hwhole : nested.Numbers JsonNumber.IsWhole := by
    intro r hr
    obtain rfl := List.mem_singleton.mp hr
    refine List.forall_mem_cons.mpr ⟨.string _, List.forall_mem_singleton.mpr ?_⟩
    simp [JsonNumber.IsWhole, Binary64.zero, hlargest]
  exact ⟨hread, hwhole, parse_render hread hwhole⟩

end Document

end BlockCompiler

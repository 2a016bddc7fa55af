import BlockCompiler.Json.Tree
import Mathlib.Data.List.Basic

/-!
# Trees as tokens

`JsonTree.tokens` lists the tokens that a tree is written with.  Putting these tokens
together again gives the tree (`ofTokens?_tokens`): wherever the builder waits for a
value, the tokens of a tree deliver that tree and leave the frames around it alone
(`Builder.delivers`).  This holds of every tree, however deeply it is nested.
-/

namespace BlockCompiler

namespace JsonTree

/-- Induction over trees, from the parts of an array or object to the whole. -/
@[elab_as_elim]
theorem induction {motive : JsonTree → Prop} (null : motive .null)
    (bool : ∀ b, motive (.bool b)) (number : ∀ n, motive (.number n))
    (string : ∀ content, motive (.string content))
    (array : ∀ items, (∀ item ∈ items, motive item) → motive (.array items))
    (object : ∀ members, (∀ member ∈ members, motive member.2) → motive (.object members)) :
    ∀ t, motive t
  | .null => null
  | .bool b => bool b
  | .number n => number n
  | .string content => string content
  | .array items => array items fun item _ => induction null bool number string array object item
  | .object members =>
    object members fun member _ => induction null bool number string array object member.2
decreasing_by
  all_goals simp_wf
  · rename_i hmem
    have := List.sizeOf_lt_of_mem hmem
    omega
  · rename_i hmem
    have := List.sizeOf_lt_of_mem hmem
    obtain ⟨name, value⟩ := member
    simp only [Prod.mk.sizeOf_spec] at this ⊢
    omega

mutual

/-- The tokens that a tree is written with. -/
def tokens : JsonTree → List JsonToken
  | .null => [.null]
  | .bool b => [.bool b]
  | .number n => [.number n]
  | .string content => [.string content]
  | .array items => .openArray :: ([.comma].intercalate (itemTokens items) ++ [.closeArray])
  | .object members => .openObject :: ([.comma].intercalate (memberTokens members) ++ [.closeObject])

/-- The tokens of the items of an array, item by item. -/
def itemTokens : List JsonTree → List (List JsonToken)
  | [] => []
  | item :: rest => item.tokens :: itemTokens rest

/-- The tokens of the members of an object, member by member. -/
def memberTokens : List (Option String × JsonTree) → List (List JsonToken)
  | [] => []
  | (name, value) :: rest => (.string name :: .colon :: value.tokens) :: memberTokens rest

end

theorem itemTokens_eq_map (items : List JsonTree) : itemTokens items = items.map tokens := by
  induction items with
  | nil => rfl
  | cons item rest ih => rw [itemTokens, ih, List.map_cons]

theorem memberTokens_eq_map (members : List (Option String × JsonTree)) :
    memberTokens members = members.map fun m => .string m.1 :: .colon :: m.2.tokens := by
  induction members with
  | nil => rfl
  | cons m rest ih => rw [memberTokens, ih, List.map_cons]

theorem intercalate_cons {α : Type} (sep first : List α) (rest : List (List α)) :
    sep.intercalate (first :: rest) = first ++ rest.flatMap (sep ++ ·) := by
  induction rest generalizing first with
  | nil => simp
  | cons next rest ih => rw [List.intercalate_cons_cons, ih]; simp

namespace Builder

/-- The builder waits for a value. -/
def AwaitsValue (b : Builder) : Prop :=
  b.expect = .value ∨ b.expect = .firstItem

theorem step_of_awaitsValue {b : Builder} (hb : b.AwaitsValue) {token : JsonToken}
    (htoken : token ≠ .closeArray) : b.step token = b.beginValue token := by
  rcases hb with hb | hb
  · simp [step, hb]
  · cases token with
    | closeArray => exact absurd rfl htoken
    | _ => simp [step, hb]

/-- What was expected does not matter once a value is complete. -/
theorem deliver_expect (frames : List Frame) (expect expect' : Expect) (root : Option JsonTree)
    (t : JsonTree) :
    (⟨frames, expect, root⟩ : Builder).deliver t = (⟨frames, expect', root⟩ : Builder).deliver t := by
  rcases frames with _ | ⟨_ | _, _⟩ <;> rfl

/-- The tokens of a tree deliver the tree wherever a value is awaited. -/
def Delivers (t : JsonTree) : Prop :=
  ∀ b : Builder, b.AwaitsValue → t.tokens.foldlM step b = some (b.deliver t)

section Parts

variable {α : Type} (frame : List α → Frame) {write : α → List JsonToken} {frames : List Frame}
  {root : Option JsonTree} {parts : List α}

/-- Further parts of an array or object, each of which adds itself to the innermost frame. -/
theorem foldlM_furtherParts
    (hnext : ∀ x ∈ parts, ∀ done, (.comma :: write x).foldlM step
      ⟨frame done :: frames, .afterValue, root⟩ =
        some ⟨frame (x :: done) :: frames, .afterValue, root⟩) (done : List α) :
    (parts.flatMap fun x => .comma :: write x).foldlM step
        ⟨frame done :: frames, .afterValue, root⟩ =
      some ⟨frame (parts.reverse ++ done) :: frames, .afterValue, root⟩ := by
  induction parts generalizing done with
  | nil => rfl
  | cons x rest ih =>
    obtain ⟨hx, hrest⟩ := List.forall_mem_cons.mp hnext
    rw [List.flatMap_cons, List.foldlM_append, hx done, List.reverse_cons, List.append_assoc]
    exact ih hrest (x :: done)

/-- All parts of an array or object, from right after its opening to its closing token. -/
theorem foldlM_parts {opened : Expect} {close : JsonToken} (whole : List α → Builder)
    (hfirst : ∀ x ∈ parts, (write x).foldlM step ⟨frame [] :: frames, opened, root⟩ =
      some ⟨frame [x] :: frames, .afterValue, root⟩)
    (hnext : ∀ x ∈ parts, ∀ done, (.comma :: write x).foldlM step
      ⟨frame done :: frames, .afterValue, root⟩ =
        some ⟨frame (x :: done) :: frames, .afterValue, root⟩)
    (hempty : step ⟨frame [] :: frames, opened, root⟩ close = some (whole []))
    (hclose : ∀ done, step ⟨frame done :: frames, .afterValue, root⟩ close =
      some (whole done.reverse)) :
    ([.comma].intercalate (parts.map write) ++ [close]).foldlM step
        ⟨frame [] :: frames, opened, root⟩ = some (whole parts) := by
  cases parts with
  | nil => simpa using hempty
  | cons x rest =>
    have hrest := foldlM_furtherParts frame (fun y hy => hnext y (List.mem_cons_of_mem _ hy)) [x]
    rw [List.map_cons, intercalate_cons, List.flatMap_map, List.foldlM_append, List.foldlM_append,
      hfirst x List.mem_cons_self]
    simp only [Option.bind_eq_bind, Option.bind_some, List.singleton_append, hrest,
      List.foldlM_cons, List.foldlM_nil, hclose]
    simp

end Parts

theorem delivers_array {items : List JsonTree} (h : ∀ t ∈ items, Delivers t) :
    Delivers (.array items) := by
  intro b hb
  have hopen : b.step .openArray = some ⟨.array [] :: b.frames, .firstItem, b.root⟩ :=
    step_of_awaitsValue hb (by decide)
  rw [tokens, itemTokens_eq_map, List.foldlM_cons, hopen]
  refine foldlM_parts .array (fun items => b.deliver (.array items)) (fun t ht => ?_)
    (fun t ht done => ?_) ?_ fun done => ?_
  · exact h t ht ⟨.array [] :: b.frames, .firstItem, b.root⟩ (Or.inr rfl)
  · exact h t ht ⟨.array done :: b.frames, .value, b.root⟩ (Or.inl rfl)
  · exact congrArg some (deliver_expect b.frames _ _ b.root _)
  · exact congrArg some (deliver_expect b.frames _ _ b.root _)

theorem delivers_object {members : List (Option String × JsonTree)}
    (h : ∀ m ∈ members, Delivers m.2) : Delivers (.object members) := by
  intro b hb
  have hopen : b.step .openObject = some ⟨.object [] none :: b.frames, .firstName, b.root⟩ :=
    step_of_awaitsValue hb (by decide)
  rw [tokens, memberTokens_eq_map, List.foldlM_cons, hopen]
  refine foldlM_parts (.object · none) (fun members => b.deliver (.object members))
    (fun m hm => ?_) (fun m hm done => ?_) ?_ fun done => ?_
  · exact h m hm ⟨.object [] m.1 :: b.frames, .value, b.root⟩ (Or.inl rfl)
  · exact h m hm ⟨.object done m.1 :: b.frames, .value, b.root⟩ (Or.inl rfl)
  · exact congrArg some (deliver_expect b.frames _ _ b.root _)
  · exact congrArg some (deliver_expect b.frames _ _ b.root _)

/-- **Where a value is awaited, the tokens of a tree deliver the tree.** -/
theorem delivers (t : JsonTree) : Delivers t := by
  induction t using induction with
  | null | bool | number | string =>
    intro b hb
    rw [tokens, List.foldlM_cons, step_of_awaitsValue hb (by simp)]
    rfl
  | array items ih => exact delivers_array ih
  | object members ih => exact delivers_object ih

end Builder

/-- **Taking a tree apart into tokens and putting it together again.** -/
theorem ofTokens?_tokens (t : JsonTree) : ofTokens? t.tokens = some t := by
  rw [ofTokens?, Builder.delivers t {} (Or.inl rfl)]
  rfl

end JsonTree

end BlockCompiler

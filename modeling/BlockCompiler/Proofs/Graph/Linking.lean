import BlockCompiler.Graph.Document
import BlockCompiler.Proofs.Graph.Validation

/-!
# The draft of a document

A document becomes a draft in three passes: its records are added as nodes, then linked,
and then the roots are marked.  Keys are looked up in the index of the draft, in which a
later node takes the place of an earlier one with the same key, and the first key that is
not found ends the passes.

Without the passes, a document has a first dangling reference (`dangling?`) or a draft in
which every key is the position of its record (`toDraft`).  The index never changes after
the first pass, so the other two come to the same dangling reference (`draft_eq`).  If
keys are distinct, they come to the same nodes and roots as well; if not, they may not, but
then both drafts are refused for the same repeated key.  So building a document is the same
either way (`build_eq`).
-/

namespace BlockCompiler

/-- The keys that a record refers to, in the order in which they are resolved. -/
def Record.references (r : Record) : List String :=
  r.values.values ++ r.statements.values ++ r.next.toList

namespace Document

/-- The position of the record with a key. -/
def locate? (d : Document) (key : String) : Option NodeId :=
  d.records.findIdx? (·.id == key)

/-- The first of the keys that no record has, as a defect of `owner`. -/
def missing? (d : Document) (owner : String) (keys : List String) : Option Defect :=
  (keys.find? fun k => (d.locate? k).isNone).map (.danglingLink owner)

/-- The first reference to a key that no record has: those of the records in order, then the
roots. -/
def dangling? (d : Document) : Option Defect :=
  (d.records.findSome? fun r => d.missing? r.id r.references).or
    (d.missing? "<root>" (d.roots.getD []))

/-- The position that a key stands for. -/
def position (d : Document) (key : String) : NodeId :=
  (d.locate? key).getD 0

/-- The node of a record. -/
def toNode (d : Document) (r : Record) : Node where
  key := r.id
  type := r.type
  fields := r.fields.map Json.fieldText
  values := r.values.map d.position
  statements := r.statements.map d.position
  next := r.next.map d.position

/-- The keys of the records with their positions, as the first pass leaves them. -/
def index (d : Document) : Dict NodeId :=
  (d.records.foldl addRecord {}).index

/-- The document as a draft, its keys being resolved. -/
def toDraft (d : Document) : Draft where
  nodes := (d.records.map d.toNode).toArray
  roots := (d.roots.getD []).map d.position
  index := d.index

end Document

/-! ## Changes of one node -/

/-- Changes of one part of a value, made one after the other, are a single change of that part. -/
theorem foldl_part {σ γ β : Type} (get : σ → γ) (put : γ → σ → σ)
    (hget : ∀ c s, get (put c s) = c) (hput : ∀ c c' s, put c' (put c s) = put c' s)
    (hself : ∀ s, put (get s) s = s) (f : γ → β → γ) (xs : List β) (s : σ) :
    xs.foldl (fun s x => put (f (get s) x) s) s = put (xs.foldl f (get s)) s := by
  induction xs generalizing s with
  | nil => exact (hself s).symm
  | cons x rest ih => rw [List.foldl_cons, ih, hget, hput, List.foldl_cons]

namespace Draft

/-- What every step of a loop keeps is kept by the loop. -/
theorem part_foldl {α γ : Type} (part : Draft → γ) (next : Draft → α → Draft)
    (hnext : ∀ d x, part (next d x) = part d) (xs : List α) (d : Draft) :
    part (xs.foldl next d) = part d := by
  induction xs generalizing d with
  | nil => rfl
  | cons x rest ih => rw [List.foldl_cons, ih, hnext]

/-- Changes to one node can be made at once. -/
theorem modify_modify (d : Draft) (i : NodeId) (f g : Node → Node) :
    (d.modify i f).modify i g = d.modify i fun n => g (f n) := by
  simp only [modify, mk.injEq, and_true]
  refine Array.ext (by simp) fun k hk hk' => ?_
  by_cases hik : i = k <;> simp [Array.getElem_modify, hik]

theorem modify_id (d : Draft) (i : NodeId) : (d.modify i fun n => n) = d := by
  obtain ⟨nodes, roots, index⟩ := d
  simp only [modify, mk.injEq, and_true]
  refine Array.ext (by simp) fun k hk hk' => ?_
  simp [Array.getElem_modify]

/-- Changes made to one node one after the other are a single change. -/
theorem foldl_modify {β : Type} (f : β → Node → Node) (xs : List β) (d : Draft) (i : NodeId) :
    xs.foldl (fun d x => d.modify i (f x)) d = d.modify i fun n => xs.foldl (fun n x => f x n) n := by
  induction xs generalizing d with
  | nil => exact (modify_id d i).symm
  | cons x rest ih =>
    rw [List.foldl_cons, ih, modify_modify]
    rfl

/-- Changes of other nodes leave a node as it is. -/
theorem node_foldl_modify_of_ne {β : Type} {spot : β → NodeId} {f : β → Node → Node} {xs : List β}
    {k : NodeId} (h : ∀ x ∈ xs, spot x ≠ k) (d : Draft) :
    (xs.foldl (fun d x => d.modify (spot x) (f x)) d).node k = d.node k := by
  induction xs generalizing d with
  | nil => rfl
  | cons x rest ih =>
    rw [List.forall_mem_cons] at h
    rw [List.foldl_cons, ih h.2, node_modify, if_neg fun hk => h.1 hk.1]

/-- Drafts with as many nodes, and the same ones, have the same list of nodes. -/
theorem nodes_ext {d d' : Draft} (hsize : d.size = d'.size) (h : ∀ i < d.size, d.node i = d'.node i) :
    d.nodes = d'.nodes := by
  refine Array.ext hsize fun i hi hi' => ?_
  have hnode := h i hi
  simpa [node, hi, hi'] using hnode

end Draft

namespace Document

/-! ## The first pass -/

/-- The node of a record before it is linked. -/
def bareNode (r : Record) : Node where
  key := r.id
  type := r.type
  fields := r.fields.map Json.fieldText

theorem addRecord_eq (d : Draft) (r : Record) :
    addRecord d r =
      { d with nodes := d.nodes.push (bareNode r), index := d.index.insert r.id d.size } := by
  have hfields : ∀ n : Node, r.fields.entries.foldl
      (fun n e => { n with fields := n.fields.insert e.1 e.2.fieldText }) n =
      { n with fields := r.fields.entries.foldl (fun m e => m.insert e.1 e.2.fieldText) n.fields } :=
    foldl_part Node.fields (fun fields n => { n with fields := fields }) (fun _ _ => rfl)
      (fun _ _ _ => rfl) (fun _ => rfl) (fun m e => m.insert e.1 e.2.fieldText) r.fields.entries
  have hbare : r.fields.entries.foldl (fun m e => m.insert e.1 e.2.fieldText) Dict.empty =
      (bareNode r).fields := Dict.foldl_insert_map Json.fieldText r.fields
  have hmodify := Draft.foldl_modify
    (fun (e : String × Json) (n : Node) => { n with fields := n.fields.insert e.1 e.2.fieldText })
    r.fields.entries (d.addNode r.id r.type) d.size
  refine Eq.trans hmodify ?_
  simp only [hfields, Draft.modify, Draft.addNode, Draft.mk.injEq, and_true]
  refine Array.ext (by simp) fun k hk hk' => ?_
  rw [Array.getElem_modify, Array.getElem_push, Array.getElem_push]
  by_cases hlt : k < d.nodes.size
  · simp [hlt, Draft.size, Nat.ne_of_gt hlt]
  · have hlast : d.size = k := by
      rw [Array.size_push] at hk'
      exact Nat.le_antisymm (Nat.not_lt.mp hlt) (Nat.le_of_lt_succ hk')
    simp [hlt, hlast, hbare, bareNode]

/-- The first pass adds a node for each record, and marks no roots. -/
theorem foldl_addRecord (records : List Record) (d : Draft) :
    (records.foldl addRecord d).nodes = d.nodes ++ (records.map bareNode).toArray ∧
      (records.foldl addRecord d).roots = d.roots := by
  induction records generalizing d with
  | nil => simp
  | cons r rest ih =>
    obtain ⟨hnodes, hroots⟩ := ih (addRecord d r)
    rw [List.foldl_cons, hnodes, hroots, addRecord_eq]
    simp

/-- The index leads from a key to a record that has it. -/
theorem exists_record_of_index {records : List Record} {k : String} {i : NodeId}
    (h : (records.foldl addRecord {}).index.get? k = some i) :
    ∃ r, records[i]? = some r ∧ r.id = k := by
  induction records using List.reverseRecOn with
  | nil => cases h
  | append_singleton records r ih =>
    have hsize : (records.foldl addRecord {}).size = records.length := by
      simp [Draft.size, (foldl_addRecord records {}).1]
    rw [List.foldl_append, List.foldl_cons, List.foldl_nil, addRecord_eq, Dict.get?_insert,
      hsize] at h
    split at h
    · rename_i hk
      cases h
      exact ⟨r, by simp, hk.symm⟩
    · obtain ⟨r', hr', hid⟩ := ih h
      refine ⟨r', ?_, hid⟩
      rw [List.getElem?_append_left (List.getElem?_eq_some_iff.mp hr').1, hr']

/-- The index has the keys of all records. -/
theorem isSome_index_iff {records : List Record} {k : String} :
    ((records.foldl addRecord {}).index.get? k).isSome = true ↔ ∃ r ∈ records, r.id = k := by
  constructor
  · intro h
    obtain ⟨i, hi⟩ := Option.isSome_iff_exists.mp h
    obtain ⟨r, hr, hid⟩ := exists_record_of_index hi
    exact ⟨r, List.mem_of_getElem? hr, hid⟩
  · rintro ⟨r, hr, rfl⟩
    induction records using List.reverseRecOn with
    | nil => cases hr
    | append_singleton records last ih =>
      rw [List.foldl_append, List.foldl_cons, List.foldl_nil, addRecord_eq, Dict.get?_insert]
      split
      · rfl
      · rename_i hne
        rcases List.mem_append.mp hr with hr | hr
        · exact ih hr
        · rw [List.mem_singleton.mp hr] at hne
          exact absurd rfl hne

/-- A key has a position if some record has it. -/
theorem isSome_locate?_iff {d : Document} {k : String} :
    (d.locate? k).isSome = true ↔ ∃ r ∈ d.records, r.id = k := by
  simp [locate?]

theorem isNone_index (d : Document) (k : String) :
    (d.index.get? k).isNone = (d.locate? k).isNone := by
  rw [← Option.not_isSome, ← Option.not_isSome, Bool.eq_iff_iff, Bool.not_eq_true',
    Bool.not_eq_true', ← Bool.not_eq_true, ← Bool.not_eq_true, isSome_locate?_iff]
  exact not_congr isSome_index_iff

/-- If keys are distinct, the index leads to every record. -/
theorem index_get?_id {d : Document} (hkeys : (d.records.map (·.id)).Nodup) {i : NodeId} {r : Record}
    (hr : d.records[i]? = some r) : d.index.get? r.id = some i := by
  obtain ⟨i', hi'⟩ := Option.isSome_iff_exists.mp
    (isSome_index_iff.mpr ⟨r, List.mem_of_getElem? hr, rfl⟩)
  obtain ⟨r', hr', hid⟩ := exists_record_of_index hi'
  have hlt : i' < (d.records.map (·.id)).length := by
    simpa using (List.getElem?_eq_some_iff.mp hr').1
  refine hi'.trans (congrArg some ((List.getElem?_inj hlt hkeys).mp ?_))
  rw [List.getElem?_map, List.getElem?_map, hr', hr, Option.map_some, Option.map_some, hid]

/-- If keys are distinct the index finds the record that a search would find. -/
theorem index_get?_of_nodup {d : Document} (hkeys : (d.records.map (·.id)).Nodup) (k : String) :
    d.index.get? k = d.locate? k := by
  cases hlocate : d.locate? k with
  | none =>
    rw [← Option.isNone_iff_eq_none, isNone_index, hlocate]
    rfl
  | some i =>
    obtain ⟨hi, hid, -⟩ := List.findIdx?_eq_some_iff_getElem.mp hlocate
    rw [← beq_iff_eq.mp hid]
    exact index_get?_id hkeys (List.getElem?_eq_getElem hi)

/-! ## The other passes -/

/-- The draft, unless there is a defect. -/
def barring (bar : Option Defect) (d : Draft) : Except Defect Draft :=
  match bar with
  | some e => .error e
  | none => .ok d

/-- Of two checks made one after the other the first to fail is reported. -/
theorem barring_bind {bar bar' : Option Defect} {d d' : Draft} {f : Draft → Except Defect Draft}
    (h : f d = barring bar' d') : (barring bar d >>= f) = barring (bar.or bar') d' := by
  cases bar with
  | some e => rfl
  | none => exact h

/-- A loop whose steps keep the index, and fail for reasons that do not change, fails for the first
of them. -/
theorem foldlM_eq_barring {α : Type} {step : Draft → α → Except Defect Draft}
    {bar : α → Option Defect} {next : Draft → α → Draft} {xs : List α} {d : Draft}
    (hstep : ∀ x ∈ xs, ∀ d' : Draft, d'.index = d.index → step d' x = barring (bar x) (next d' x))
    (hnext : ∀ d x, (next d x).index = d.index) :
    xs.foldlM step d = barring (xs.findSome? bar) (xs.foldl next d) := by
  induction xs generalizing d with
  | nil => rfl
  | cons x rest ih =>
    obtain ⟨hx, hrest⟩ := List.forall_mem_cons.mp hstep
    rw [← hnext d x] at hrest
    rw [List.foldlM_cons, hx d rfl, barring_bind (ih hrest), List.findSome?_cons, List.foldl_cons]
    cases bar x <;> rfl

/-- The defect of a key that the index does not have. -/
def unresolved? (index : Dict NodeId) (owner key : String) : Option Defect :=
  if (index.get? key).isNone then some (.danglingLink owner key) else none

/-- The position that the index has for a key. -/
def spot (index : Dict NodeId) (key : String) : NodeId :=
  (index.get? key).getD 0

/-- Resolving a key is a check, followed by a change that cannot fail. -/
theorem resolve_bind (d : Draft) (owner key : String) (f : NodeId → Draft) :
    (do return f (← resolve d owner key)) =
      barring (unresolved? d.index owner key) (f (spot d.index key)) := by
  unfold resolve unresolved? spot Draft.find?
  cases d.index.get? key <;> rfl

/-- The node with the links of its record. -/
def linkNode (index : Dict NodeId) (r : Record) (n : Node) : Node :=
  { n with
    values := r.values.entries.foldl (fun m e => m.insert e.1 (spot index e.2)) n.values
    statements := r.statements.entries.foldl (fun m e => m.insert e.1 (spot index e.2)) n.statements
    next := (r.next.map (spot index)).or n.next }

/-- The links of a node are set one by one. -/
theorem modify_linkNode (index : Dict NodeId) (r : Record) (d : Draft) (i : NodeId) :
    d.modify i (linkNode index r) =
      let values := r.values.entries.foldl (fun d' e => d'.setValue i e.1 (spot index e.2)) d
      let linked := r.statements.entries.foldl
        (fun d' e => d'.setStatement i e.1 (spot index e.2)) values
      (r.next.map (spot index)).elim linked (linked.setNext i) := by
  have hvalues : ∀ n : Node, r.values.entries.foldl
      (fun n e => { n with values := n.values.insert e.1 (spot index e.2) }) n =
      { n with values := r.values.entries.foldl (fun m e => m.insert e.1 (spot index e.2)) n.values } :=
    foldl_part Node.values (fun values n => { n with values := values }) (fun _ _ => rfl)
      (fun _ _ _ => rfl) (fun _ => rfl) (fun m e => m.insert e.1 (spot index e.2)) r.values.entries
  have hstatements : ∀ n : Node, r.statements.entries.foldl
      (fun n e => { n with statements := n.statements.insert e.1 (spot index e.2) }) n =
      { n with statements :=
          r.statements.entries.foldl (fun m e => m.insert e.1 (spot index e.2)) n.statements } :=
    foldl_part Node.statements (fun statements n => { n with statements := statements })
      (fun _ _ => rfl) (fun _ _ _ => rfl) (fun _ => rfl)
      (fun m e => m.insert e.1 (spot index e.2)) r.statements.entries
  have hsetValue := Draft.foldl_modify (fun (e : String × String) (n : Node) =>
    { n with values := n.values.insert e.1 (spot index e.2) }) r.values.entries d i
  have hsetStatement := Draft.foldl_modify (fun (e : String × String) (n : Node) =>
    { n with statements := n.statements.insert e.1 (spot index e.2) }) r.statements.entries
  simp only [Draft.setValue, Draft.setStatement]
  -- All changes are to one node, so they are one change, slot by slot.
  rw [hsetValue, hsetStatement, Draft.modify_modify]
  simp only [hvalues, hstatements]
  cases hnext : r.next with
  | none =>
    refine congrArg (d.modify i) (funext fun n => ?_)
    rw [linkNode, hnext]
    rfl
  | some key =>
    rw [Option.map_some, Option.elim_some, Draft.setNext, Draft.modify_modify]
    refine congrArg (d.modify i) (funext fun n => ?_)
    rw [linkNode, hnext]
    rfl

/-- Slots are filled one by one, unless one of their keys dangles. -/
theorem foldlM_slots (set : Draft → String → NodeId → Draft)
    (hset : ∀ d slot i, (set d slot i).index = d.index) (slots : Dict String) (owner : String)
    (d : Draft) :
    slots.entries.foldlM (fun d' e => do return set d' e.1 (← resolve d' owner e.2)) d =
      barring (slots.values.findSome? (unresolved? d.index owner))
        (slots.entries.foldl (fun d' e => set d' e.1 (spot d.index e.2)) d) := by
  rw [Dict.values, List.findSome?_map]
  refine foldlM_eq_barring (fun e _ d' hd' => ?_) fun d' e => hset d' e.1 _
  rw [resolve_bind, hd', Function.comp_apply]

/-- A record is linked unless one of its references dangles. -/
theorem linkRecord_eq {d : Draft} {r : Record} {i : NodeId} (hi : d.index.get? r.id = some i) :
    linkRecord d r = barring (r.references.findSome? (unresolved? d.index r.id))
      (d.modify i (linkNode d.index r)) := by
  let values := r.values.entries.foldl (fun d' e => d'.setValue i e.1 (spot d.index e.2)) d
  let linked := r.statements.entries.foldl
    (fun d' e => d'.setStatement i e.1 (spot d.index e.2)) values
  have hvalues : values.index = d.index :=
    Draft.part_foldl Draft.index
      (fun d' (e : String × String) => d'.setValue i e.1 (spot d.index e.2)) (fun _ _ => rfl) _ d
  have hlinked : linked.index = d.index :=
    (Draft.part_foldl Draft.index
      (fun d' (e : String × String) => d'.setStatement i e.1 (spot d.index e.2)) (fun _ _ => rfl) _
      values).trans hvalues
  have howner : resolve d r.id r.id = .ok i := by rw [resolve, Draft.find?, hi]
  have hvaluesM := foldlM_slots (fun d' slot t => d'.setValue i slot t) (fun _ _ _ => rfl)
    r.values r.id d
  have hstatementsM := foldlM_slots (fun d' slot t => d'.setStatement i slot t) (fun _ _ _ => rfl)
    r.statements r.id values
  rw [hvalues] at hstatementsM
  -- Setting slots leaves the index alone, so all keys are looked up in the same one.
  rw [linkRecord, howner, Record.references, List.findSome?_append, List.findSome?_append,
    modify_linkNode, Option.or_assoc]
  show (r.values.entries.foldlM
    (fun d' e => do return d'.setValue i e.1 (← resolve d' r.id e.2)) d >>= _) = _
  rw [hvaluesM]
  refine barring_bind (Eq.trans (congrArg (· >>= _) hstatementsM) (barring_bind ?_))
  cases r.next with
  | none => rfl
  | some key =>
    refine (resolve_bind linked r.id key (linked.setNext i)).trans ?_
    rw [hlinked, Option.toList_some, List.findSome?_singleton]
    rfl

/-- The draft after the second pass. -/
def linked (d : Document) : Draft :=
  d.records.foldl (fun draft r => draft.modify (spot d.index r.id) (linkNode d.index r))
    (d.records.foldl addRecord {})

/-- Linking all records is a search for a dangling reference, and a draft. -/
theorem foldlM_linkRecord (d : Document) :
    d.records.foldlM linkRecord (d.records.foldl addRecord {}) =
      barring (d.records.findSome? fun r => r.references.findSome? (unresolved? d.index r.id))
        d.linked := by
  refine foldlM_eq_barring (fun r hr draft hindex => ?_) fun _ _ => rfl
  obtain ⟨i, hi⟩ := Option.isSome_iff_exists.mp (isSome_index_iff.mpr ⟨r, hr, rfl⟩)
  rw [← hindex] at hi
  have hspot : spot d.index r.id = i := by
    rw [spot, index, ← hindex, hi, Option.getD_some]
  rw [linkRecord_eq hi, hspot, hindex]
  rfl

/-- Marking the roots is a search for a dangling key, and a list of positions. -/
theorem foldlM_markKey (keys : List String) (draft : Draft) :
    keys.foldlM markKey draft =
      barring (keys.findSome? (unresolved? draft.index "<root>"))
        { draft with roots := draft.roots ++ keys.map (spot draft.index) } := by
  have hmark : ∀ (p : String → NodeId) (keys : List String) (draft : Draft),
      keys.foldl (fun draft k => draft.markRoot (p k)) draft =
        { draft with roots := draft.roots ++ keys.map p } := by
    intro p keys
    induction keys with
    | nil => intro draft; simp
    | cons k rest ih =>
      intro draft
      rw [List.foldl_cons, ih]
      simp [Draft.markRoot]
  rw [← hmark]
  refine foldlM_eq_barring (fun k _ draft' hindex => ?_) fun _ _ => rfl
  rw [← hindex]
  exact resolve_bind draft' "<root>" k draft'.markRoot

theorem findSome?_unresolved? (d : Document) (owner : String) (keys : List String) :
    keys.findSome? (unresolved? d.index owner) = d.missing? owner keys := by
  induction keys with
  | nil => rfl
  | cons k rest ih =>
    rw [List.findSome?_cons, ih, unresolved?, isNone_index, missing?, missing?, List.find?_cons]
    cases (d.locate? k).isNone <;> rfl

/-- The draft after the last pass. -/
def passed (d : Document) : Draft where
  nodes := d.linked.nodes
  roots := (d.roots.getD []).map (spot d.index)
  index := d.index

/-- What linking a record does not touch is as it was before any record was linked. -/
theorem part_linked {γ : Type} (part : Draft → γ) (d : Document)
    (hpart : ∀ (draft : Draft) (r : Record),
      part (draft.modify (spot d.index r.id) (linkNode d.index r)) = part draft) :
    part d.linked = part (d.records.foldl addRecord {}) :=
  Draft.part_foldl part (fun draft (r : Record) =>
    draft.modify (spot d.index r.id) (linkNode d.index r)) hpart d.records _

/-- **The passes come to the first dangling reference**, or to the end. -/
theorem draft_eq (d : Document) : d.draft = barring d.dangling? d.passed := by
  have hindex : d.linked.index = d.index := part_linked Draft.index d fun _ _ => rfl
  have hroots : d.linked.roots = [] :=
    (part_linked Draft.roots d fun _ _ => rfl).trans (foldl_addRecord d.records {}).2
  have hmark := foldlM_markKey (d.roots.getD []) d.linked
  rw [hindex, hroots, findSome?_unresolved?, List.nil_append] at hmark
  simp only [draft, foldlM_linkRecord, findSome?_unresolved?]
  exact barring_bind hmark

/-! ## Distinct keys -/

theorem size_toDraft (d : Document) : d.toDraft.size = d.records.length := by
  simp [toDraft, Draft.size]

/-- The node of a record is at the position of the record. -/
theorem node_toDraft {d : Document} {i : NodeId} (hi : i < d.records.length) :
    d.toDraft.node i = d.toNode d.records[i] := by
  simp [Draft.node, toDraft, hi]

theorem key_toDraft {d : Document} {i : NodeId} (hi : i < d.records.length) :
    d.toDraft.key i = d.records[i].id := by
  rw [Draft.key, node_toDraft hi]
  rfl

theorem size_linked (d : Document) : d.linked.size = d.records.length := by
  rw [part_linked Draft.size d fun _ _ => Draft.size_modify _ _ _]
  simp [Draft.size, (foldl_addRecord d.records {}).1]

theorem node_foldl_addRecord {records : List Record} {i : NodeId} (hi : i < records.length) :
    (records.foldl addRecord {}).node i = bareNode records[i] := by
  simp [Draft.node, (foldl_addRecord records {}).1, hi]

/-- Linking changes no key. -/
theorem key_linked {d : Document} {i : NodeId} (hi : i < d.records.length) :
    d.linked.key i = d.records[i].id := by
  have hkey : d.linked.key i = (d.records.foldl addRecord {}).key i := by
    refine part_linked (fun draft => draft.key i) d fun draft r => ?_
    rw [Draft.key, Draft.node_modify]
    split <;> rfl
  rw [hkey, Draft.key, node_foldl_addRecord hi]
  rfl

/-- If keys are distinct, every record is linked to the node that was added for it. -/
theorem node_linked {d : Document} (hkeys : (d.records.map (·.id)).Nodup) {i : NodeId}
    (hi : i < d.records.length) :
    d.linked.node i = linkNode d.index d.records[i] (bareNode d.records[i]) := by
  have hspot : spot d.index d.records[i].id = i := by
    rw [spot, index_get?_id hkeys (List.getElem?_eq_getElem hi), Option.getD_some]
  have hother : ∀ r ∈ d.records, r.id ≠ d.records[i].id → spot d.index r.id ≠ i := by
    intro r hr hne heq
    obtain ⟨k, hk⟩ := List.getElem?_of_mem hr
    rw [spot, index_get?_id hkeys hk, Option.getD_some] at heq
    rw [heq, List.getElem?_eq_getElem hi] at hk
    exact hne (congrArg Record.id (Option.some.inj hk)).symm
  have hsplit : d.records = d.records.take i ++ d.records[i] :: d.records.drop (i + 1) := by
    rw [← List.drop_eq_getElem_cons hi, List.take_append_drop]
  -- Records before and after it have other keys, and are linked elsewhere.
  have hapart := hkeys
  rw [hsplit, List.map_append, List.map_cons, List.nodup_append, List.nodup_cons] at hapart
  obtain ⟨-, ⟨hafter, -⟩, hbefore⟩ := hapart
  have hlinked : d.linked = (d.records.take i ++ d.records[i] :: d.records.drop (i + 1)).foldl
      (fun draft r => draft.modify (spot d.index r.id) (linkNode d.index r))
      (d.records.foldl addRecord {}) := by
    rw [← hsplit]
    rfl
  have hbefore' : ∀ r ∈ d.records.take i, spot d.index r.id ≠ i := by
    intro r hr
    refine hother r (List.mem_of_mem_take hr) fun heq => ?_
    exact hbefore r.id (List.mem_map_of_mem hr) _ List.mem_cons_self heq
  have hafter' : ∀ r ∈ d.records.drop (i + 1), spot d.index r.id ≠ i := by
    intro r hr
    refine hother r (List.mem_of_mem_drop hr) fun heq => hafter ?_
    rw [← heq]
    exact List.mem_map_of_mem hr
  rw [hlinked, List.foldl_append, List.foldl_cons, Draft.node_foldl_modify_of_ne hafter',
    Draft.node_modify, if_pos, Draft.node_foldl_modify_of_ne hbefore', node_foldl_addRecord hi]
  refine ⟨hspot, ?_⟩
  rw [Draft.part_foldl Draft.size (fun draft (r : Record) =>
    draft.modify (spot d.index r.id) (linkNode d.index r)) fun _ _ => Draft.size_modify _ _ _]
  simpa [Draft.size, (foldl_addRecord d.records {}).1] using hi

/-- If keys are distinct, the passes come to the draft in which every key is resolved. -/
theorem passed_eq_toDraft {d : Document} (hkeys : (d.records.map (·.id)).Nodup) :
    d.passed = d.toDraft := by
  have hspot : spot d.index = d.position := by
    funext k
    rw [spot, index_get?_of_nodup hkeys, position]
  have hnodes : d.linked.nodes = d.toDraft.nodes := by
    refine Draft.nodes_ext (d.size_linked.trans d.size_toDraft.symm) fun i hi => ?_
    rw [size_linked] at hi
    rw [node_linked hkeys hi, node_toDraft hi, linkNode, hspot]
    simp only [bareNode, Dict.foldl_insert_map, Option.or_none]
    rfl
  rw [passed, hnodes, hspot]
  rfl

/-- The keys of a draft are those of the records. -/
theorem map_key_ids_of {d : Document} {draft : Draft} (hsize : draft.size = d.records.length)
    (hkey : ∀ i (hi : i < d.records.length), draft.key i = d.records[i].id) :
    draft.ids.map draft.key = d.records.map (·.id) := by
  refine List.ext_getElem (by simp [Draft.ids, hsize]) fun i hi hi' => ?_
  rw [List.length_map] at hi'
  simp [Draft.ids, hkey i hi']

/-- If keys are not distinct, any draft with the keys of the records is refused for the first one
that is repeated. -/
theorem build_of_repeated {d : Document} {draft : Draft} (hsize : draft.size = d.records.length)
    (hkey : ∀ i (hi : i < d.records.length), draft.key i = d.records[i].id) {k : String}
    (hrepeat : Draft.firstRepeat? [] (d.records.map (·.id)) = some k) :
    draft.build = .error (.duplicateNode k) := by
  have hkeys : draft.repeatedKey? = some (.duplicateNode k) := by
    rw [Draft.repeatedKey?, map_key_ids_of hsize hkey, hrepeat, Option.map_some]
  rw [Draft.build, Draft.defect?, hkeys, Option.some_or]

/-- **Building a document** reports the first dangling reference, or builds the draft in which every
key is the position of its record. -/
theorem build_eq (d : Document) :
    d.build = match d.dangling? with
      | some e => .error e
      | none => d.toDraft.build := by
  rw [build, draft_eq]
  cases d.dangling? with
  | some e => rfl
  | none =>
    show d.passed.build = d.toDraft.build
    cases hrepeat : Draft.firstRepeat? [] (d.records.map (·.id)) with
    | none => rw [passed_eq_toDraft ((Draft.firstRepeat?_eq_none_iff _ _).mp hrepeat).1]
    | some k =>
      have hpassed : ∀ i (hi : i < d.records.length), d.passed.key i = d.records[i].id :=
        fun i hi => key_linked hi
      have hsize : d.passed.size = d.records.length := d.size_linked
      rw [build_of_repeated hsize hpassed hrepeat,
        build_of_repeated d.size_toDraft (fun _ hi => key_toDraft hi) hrepeat]

/-- If no reference dangles, a document is built by building its draft. -/
theorem build_of_dangling? {d : Document} (h : d.dangling? = none) :
    d.build = d.toDraft.build := by
  rw [build_eq, h]

/-- A document with a graph has no dangling reference. -/
theorem dangling?_of_build {d : Document} {g : Graph} (h : d.build = .ok g) :
    d.dangling? = none ∧ d.toDraft.build = .ok g := by
  rw [build_eq] at h
  cases hd : d.dangling? with
  | some e =>
    rw [hd] at h
    cases h
  | none =>
    rw [hd] at h
    exact ⟨rfl, h⟩

/-! ## Links stay inside -/

/-- No reference dangles iff every key that occurs as one is the key of a record. -/
theorem dangling?_eq_none_iff (d : Document) :
    d.dangling? = none ↔
      (∀ r ∈ d.records, ∀ k ∈ r.references, (d.locate? k).isSome) ∧
        ∀ k ∈ d.roots.getD [], (d.locate? k).isSome := by
  simp [dangling?, missing?, List.findSome?_eq_none_iff, Option.isSome_iff_ne_none]

theorem position_lt {d : Document} {key : String} (h : (d.locate? key).isSome) :
    d.position key < d.records.length := by
  obtain ⟨i, hi⟩ := Option.isSome_iff_exists.mp h
  rw [position, hi, Option.getD_some]
  exact (List.findIdx?_eq_some_iff_getElem.mp hi).1

theorem exists_key_of_get?_map {d : Document} {slots : Dict String} {slot : String} {t : NodeId}
    (h : (slots.map d.position).get? slot = some t) : ∃ k ∈ slots.values, t = d.position k := by
  rw [Dict.get?_map] at h
  obtain ⟨k, hk, rfl⟩ := Option.map_eq_some_iff.mp h
  exact ⟨k, Dict.mem_values_iff.mpr ⟨slot, hk⟩, rfl⟩

/-- A link of a node comes from a reference of its record. -/
theorem exists_reference_of_target? {d : Document} {r : Record} {p : Place} {t : NodeId}
    (h : (d.toNode r).target? p = some t) : ∃ k ∈ r.references, t = d.position k := by
  unfold Record.references
  cases p with
  | value slot =>
    obtain ⟨k, hk, rfl⟩ := exists_key_of_get?_map h
    exact ⟨k, by simp [hk], rfl⟩
  | statement slot =>
    obtain ⟨k, hk, rfl⟩ := exists_key_of_get?_map h
    exact ⟨k, by simp [hk], rfl⟩
  | next =>
    obtain ⟨k, hk, rfl⟩ := Option.map_eq_some_iff.mp h
    exact ⟨k, by simp [hk], rfl⟩

/-- A document without dangling references gives a closed draft. -/
theorem closed_toDraft {d : Document} (h : d.dangling? = none) : d.toDraft.Closed := by
  obtain ⟨hrecords, hroots⟩ := d.dangling?_eq_none_iff.mp h
  constructor
  · intro i p t ht
    have hi : i < d.records.length := d.size_toDraft ▸ d.toDraft.lt_size_of_target? ht
    rw [node_toDraft hi] at ht
    obtain ⟨k, hk, rfl⟩ := exists_reference_of_target? ht
    rw [size_toDraft]
    exact position_lt (hrecords _ (List.getElem_mem hi) k hk)
  · intro r hr
    obtain ⟨k, hk, rfl⟩ := List.mem_map.mp hr
    rw [size_toDraft]
    exact position_lt (hroots k hk)

/-- **The graph of a document is built from a closed draft.** -/
theorem built {d : Document} {g : Graph} (h : d.build = .ok g) : g.Built := by
  obtain ⟨hdangling, hbuild⟩ := dangling?_of_build h
  exact ⟨d.toDraft, closed_toDraft hdangling, hbuild⟩

end Document

end BlockCompiler

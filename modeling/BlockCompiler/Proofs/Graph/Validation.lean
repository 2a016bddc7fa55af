import BlockCompiler.Proofs.Graph.Editing
import BlockCompiler.Proofs.Graph.Search

/-!
# What building a graph accepts

`Draft.build` looks for defects by five searches over lists, owner tables and links.
Here each search is matched with the property of the edges that it decides: distinct
keys, one edge into each node, roots that are distinct and not owned, no circle, and
a root above every node.  What the last two searches find is said in `Search`, for
edges that do not lead outside the draft.

Together they say exactly when a draft has a graph, and which kind of defect is
reported when it has none (`Draft.build_verdict`).
-/

namespace BlockCompiler

open Relation

/-- Every node is the target of at most one edge. -/
def SingleOwner (node : NodeId → Node) : Prop :=
  ∀ a p b q t, (node a).target? p = some t → (node b).target? q = some t → a = b ∧ p = q

namespace Draft

/-- No two nodes share a key. -/
def DistinctKeys (d : Draft) : Prop :=
  ∀ i k, i < d.size → k < d.size → d.key i = d.key k → i = k

/-- The marked roots are distinct and none of them is the target of an edge. -/
def FreeRoots (d : Draft) : Prop :=
  d.roots.Nodup ∧ ∀ r ∈ d.roots, ∀ a, ¬ Leads d.node a r

/-- Every node lies below a marked root, or is one. -/
def Rooted (d : Draft) : Prop :=
  ∀ i, i < d.size → ∃ r ∈ d.roots, ReflTransGen (Leads d.node) r i

/-! ## Repeated keys -/

/-- The step of a search for repetitions: an entry that was not seen before joins those seen. -/
theorem nodup_unseen_cons {α : Type} {x : α} {seen : List α} (hx : x ∉ seen) (rest : List α) :
    (rest.Nodup ∧ ∀ y ∈ rest, y ∉ x :: seen) ↔
      (x :: rest).Nodup ∧ ∀ y ∈ x :: rest, y ∉ seen := by
  simp only [List.nodup_cons, List.mem_cons, not_or, forall_eq_or_imp]
  constructor
  · rintro ⟨hnodup, hnew⟩
    exact ⟨⟨fun hmem => (hnew x hmem).1 rfl, hnodup⟩, hx, fun y hy => (hnew y hy).2⟩
  · rintro ⟨⟨hmem, hnodup⟩, -, hnew⟩
    exact ⟨hnodup, fun y hy => ⟨fun heq => hmem (heq ▸ hy), hnew y hy⟩⟩

/-- The search finds nothing if the keys are distinct, from each other and from those seen. -/
theorem firstRepeat?_eq_none_iff (seen keys : List String) :
    firstRepeat? seen keys = none ↔ keys.Nodup ∧ ∀ k ∈ keys, k ∉ seen := by
  induction keys generalizing seen with
  | nil => simp [firstRepeat?]
  | cons k rest ih =>
    by_cases hk : k ∈ seen
    · simp [firstRepeat?, hk]
    · rw [← nodup_unseen_cons hk, ← ih, firstRepeat?, if_neg (by simpa using hk)]

/-- The first search looks for repeated keys. -/
theorem repeatedKey?_eq_none_iff (d : Draft) : d.repeatedKey? = none ↔ d.DistinctKeys := by
  rw [repeatedKey?, Option.map_eq_none_iff, firstRepeat?_eq_none_iff, ids,
    List.nodup_map_iff_inj_on List.nodup_range]
  constructor
  · rintro ⟨h, -⟩ i k hi hk heq
    exact h i (List.mem_range.mpr hi) k (List.mem_range.mpr hk) heq
  · intro h
    refine ⟨fun i hi k hk heq => ?_, fun _ _ => List.not_mem_nil⟩
    exact h i k (List.mem_range.mp hi) (List.mem_range.mp hk) heq

theorem kind_of_repeatedKey? {d : Draft} {e : Defect} (h : d.repeatedKey? = some e) :
    e.kind = .duplicateNode := by
  obtain ⟨key, -, rfl⟩ := Option.map_eq_some_iff.mp h
  rfl

/-! ## Nodes with two edges -/

/-- The search finds nothing if no two links, those seen included, lead to the same node. -/
theorem firstClash?_eq_none_iff (seen links : List Link) :
    firstClash? seen links = none ↔
      (links.map (·.target)).Nodup ∧ ∀ t ∈ links.map (·.target), t ∉ seen.map (·.target) := by
  induction links generalizing seen with
  | nil => simp [firstClash?]
  | cons l rest ih =>
    rw [firstClash?]
    cases hfind : seen.find? (·.target == l.target) with
    | some earlier =>
      have hmem := List.mem_of_find?_eq_some hfind
      have heq : earlier.target = l.target := by simpa using List.find?_some hfind
      have hseen : l.target ∈ seen.map (·.target) := List.mem_map.mpr ⟨earlier, hmem, heq⟩
      simp only [reduceCtorEq, false_iff]
      exact fun h => h.2 l.target List.mem_cons_self hseen
    | none =>
      have hseen : l.target ∉ seen.map (·.target) := by
        intro h
        obtain ⟨m, hm, heq⟩ := List.mem_map.mp h
        have hnot := List.find?_eq_none.mp hfind m hm
        simp [heq] at hnot
      rw [List.map_cons, ← nodup_unseen_cons hseen]
      exact ih (l :: seen)

/-- The second search looks for nodes with two edges into them. -/
theorem sharedNode?_eq_none_iff (d : Draft) : d.sharedNode? = none ↔ SingleOwner d.node := by
  rw [sharedNode?, Option.map_eq_none_iff, firstClash?_eq_none_iff, links_eq_map_edges, List.map_map]
  -- Every edge is listed once, so targets are listed once iff edges with one target are equal.
  have hinj := List.nodup_map_iff_inj_on (f := Edge.target) d.nodup_edges
  constructor
  · rintro ⟨hnodup, -⟩ a p b q t ha hb
    have heq := hinj.mp hnodup ⟨a, p, t⟩ (d.mem_edges_iff.mpr ha) ⟨b, q, t⟩ (d.mem_edges_iff.mpr hb) rfl
    cases heq
    exact ⟨rfl, rfl⟩
  · intro h
    refine ⟨hinj.mpr ?_, fun _ _ => List.not_mem_nil⟩
    rintro ⟨a, p, t⟩ ha ⟨b, q, u⟩ hb heq
    obtain rfl : t = u := heq
    obtain ⟨rfl, rfl⟩ := h a p b q t (d.mem_edges_iff.mp ha) (d.mem_edges_iff.mp hb)
    rfl

theorem kind_of_sharedNode? {d : Draft} {e : Defect} (h : d.sharedNode? = some e) :
    e.kind = .multipleOwners := by
  obtain ⟨clash, -, rfl⟩ := Option.map_eq_some_iff.mp h
  rfl

/-! ## The table of owners -/

/-- Entering an owner changes one place of the table. -/
theorem ownerIn_setIfInBounds (table : OwnerTable) (i t o : NodeId) :
    ownerIn (table.setIfInBounds i (some o)) t =
      if i = t ∧ t < table.size then some o else ownerIn table t := by
  by_cases hit : i = t
  · subst hit
    by_cases hi : i < table.size
    · simp [ownerIn, hi]
    · simp [ownerIn, hi]
  · simp [ownerIn, hit]

/-- The last link to a node decides about its owner in the table. -/
theorem ownerIn_foldl (links : List Link) (table : OwnerTable) (t : NodeId) :
    ownerIn (links.foldl (fun table l => table.setIfInBounds l.target (some l.owner)) table) t =
      if t < table.size then
        ((links.reverse.find? (·.target == t)).map (·.owner)).or (ownerIn table t)
      else none := by
  induction links generalizing table with
  | nil =>
    by_cases ht : t < table.size
    · simp [ht]
    · simp [ownerIn, ht]
  | cons l rest ih =>
    -- Later links are found first in the reversed list, as they overwrite earlier ones in the table.
    rw [List.foldl_cons, ih, Array.size_setIfInBounds, List.reverse_cons, List.find?_append,
      ownerIn_setIfInBounds]
    by_cases ht : t < table.size
    · simp only [ht, if_true, and_true, Option.map_or, Option.or_assoc]
      congr 1
      by_cases hl : l.target = t <;> simp [hl]
    · simp only [ht, if_false]

/-- The entry of a table is the owner of the last link to a position. -/
theorem ownerIn_ownerTable (size : Nat) (links : List Link) (t : NodeId) :
    ownerIn (ownerTable size links) t =
      if t < size then (links.reverse.find? (·.target == t)).map (·.owner) else none := by
  have hreplicate : ownerIn (Array.replicate size none) t = none := by
    by_cases ht : t < size <;> simp [ownerIn, ht]
  rw [ownerTable, ownerIn_foldl, Array.size_replicate, hreplicate, Option.or_none]

/-- A node without an owner in the table is one without a link to it. -/
theorem ownerIn_ownerTable_eq_none_iff {size : Nat} {links : List Link} {t : NodeId}
    (ht : t < size) :
    ownerIn (ownerTable size links) t = none ↔ ∀ l ∈ links, l.target ≠ t := by
  simp [ownerIn_ownerTable, ht]

/-- The owner of a node in the table has a link to it. -/
theorem exists_link_of_ownerIn {size : Nat} {links : List Link} {t o : NodeId}
    (h : ownerIn (ownerTable size links) t = some o) :
    t < size ∧ { owner := o, target := t } ∈ links := by
  rw [ownerIn_ownerTable] at h
  split at h
  · rename_i ht
    obtain ⟨⟨owner, target⟩, hfind, rfl⟩ := Option.map_eq_some_iff.mp h
    obtain rfl : target = t := by simpa using List.find?_some hfind
    exact ⟨ht, List.mem_reverse.mp (List.mem_of_find?_eq_some hfind)⟩
  · cases h

/-- Where all links to a position have one owner, the table shows that owner. -/
theorem ownerIn_ownerTable_eq_some {size : Nat} {links : List Link} {t o : NodeId} (ht : t < size)
    (hmem : { owner := o, target := t } ∈ links)
    (hone : ∀ a, { owner := a, target := t } ∈ links → a = o) :
    ownerIn (ownerTable size links) t = some o := by
  cases h : ownerIn (ownerTable size links) t with
  | none => exact absurd rfl ((ownerIn_ownerTable_eq_none_iff ht).mp h _ hmem)
  | some a => rw [hone a (exists_link_of_ownerIn h).2]

/-- For the links of a draft these are the nodes that no edge leads to. -/
theorem ownerIn_owners_eq_none_iff (d : Draft) {t : NodeId} (ht : t < d.size) :
    ownerIn d.owners t = none ↔ ∀ a, ¬ Leads d.node a t := by
  rw [owners, ownerIn_ownerTable_eq_none_iff ht]
  constructor
  · intro h a ha
    exact h ⟨a, t⟩ (d.mem_links_iff.mpr ha) rfl
  · rintro h ⟨a, u⟩ hl rfl
    exact h a (d.mem_links_iff.mp hl)

/-! ## Roots -/

/-- The search finds nothing if the roots are distinct and have no owners. -/
theorem firstBadRoot?_eq_none_iff (d : Draft) (table : OwnerTable) (seen roots : List NodeId) :
    firstBadRoot? d table seen roots = none ↔
      (roots.Nodup ∧ ∀ r ∈ roots, r ∉ seen) ∧ ∀ r ∈ roots, ownerIn table r = none := by
  induction roots generalizing seen with
  | nil => simp [firstBadRoot?]
  | cons r rest ih =>
    by_cases hr : r ∈ seen
    · simp [firstBadRoot?, hr]
    · rw [← nodup_unseen_cons hr, firstBadRoot?, if_neg (by simpa using hr)]
      cases ho : ownerIn table r with
      | some o => simp [ho]
      | none => simp only [ih, List.forall_mem_cons, ho, true_and]

theorem rootList_of_ne_nil {d : Draft} (h : d.roots ≠ []) : d.rootList = d.roots := by
  simp [rootList, h]

/-- Without marked roots all nodes that have no owner count as roots. -/
theorem rootList_of_eq_nil {d : Draft} (h : d.roots = []) :
    d.rootList = d.ids.filter fun i => (ownerIn d.owners i).isNone := by
  simp [rootList, h]

/-- Roots that were not marked are never bad: they are found as the nodes without an owner. -/
theorem badRoot?_eq_none_iff {d : Draft} (hc : d.Closed) : d.badRoot? = none ↔ d.FreeRoots := by
  rw [badRoot?, firstBadRoot?_eq_none_iff]
  by_cases hnil : d.roots = []
  · have hfree : d.FreeRoots := by simp [FreeRoots, hnil]
    simp only [hfree, iff_true, rootList_of_eq_nil hnil]
    refine ⟨⟨List.nodup_range.filter _, fun _ _ => List.not_mem_nil⟩, fun r hr => ?_⟩
    simpa using (List.mem_filter.mp hr).2
  · rw [rootList_of_ne_nil hnil, FreeRoots]
    refine and_congr (and_iff_left fun _ _ => List.not_mem_nil) ?_
    refine forall_congr' fun r => forall_congr' fun hr => ?_
    exact d.ownerIn_owners_eq_none_iff (hc.root_lt r hr)

theorem kind_of_badRoot? {d : Draft} {e : Defect} (h : d.badRoot? = some e) :
    e.kind = .multipleOwners := by
  have key : ∀ seen roots, firstBadRoot? d d.owners seen roots = some e →
      e.kind = .multipleOwners := by
    intro seen roots
    induction roots generalizing seen with
    | nil => intro h; cases h
    | cons r rest ih =>
      intro h
      rw [firstBadRoot?] at h
      split at h
      · cases h; rfl
      · split at h
        · cases h; rfl
        · exact ih _ h
  exact key _ _ h

/-! ## Circles and detached nodes -/

/-- The fourth search looks for circles. -/
theorem cycle?_eq_none_iff {d : Draft} (hc : d.Closed) : d.cycle? = none ↔ Acyclic d.node := by
  rw [cycle?, Option.map_eq_none_iff]
  refine Descent.circle?_eq_none_iff (fun a b h => d.lt_size_of_leads h) ?_
  rintro a b ⟨p, hp⟩
  exact hc.target_lt a p b hp

theorem kind_of_cycle? {d : Draft} {e : Defect} (h : d.cycle? = some e) : e.kind = .cycle := by
  obtain ⟨found, -, rfl⟩ := Option.map_eq_some_iff.mp h
  rfl

/-- Each link is followed from its owner. -/
theorem length_links (d : Draft) : d.links.length = (d.ids.flatMap d.targets).length := by
  have htargets : d.links.map (·.target) = d.ids.flatMap d.targets := by
    simp only [links, List.map_flatMap, List.map_map, Function.comp_def, List.map_id']
    rfl
  rw [← htargets, List.length_map]

/-- The nodes that are marked as reached are those below marked roots. -/
theorem getD_reached {d : Draft} (hc : d.Closed) (i : NodeId) :
    d.reached.getD i false = true ↔ ∃ r ∈ d.roots, ReflTransGen (Leads d.node) r i := by
  have hleads : (fun a b => b ∈ d.targets a) = Leads d.node := by
    funext a b
    exact propext Node.mem_targets_iff
  rw [reached, reach_eq_true_iff, hleads]
  · simp
  · intro a b hb
    obtain ⟨p, hp⟩ := Node.mem_targets_iff.mp hb
    exact hc.target_lt a p b hp
  · intro r hr
    exact hc.root_lt r (List.mem_reverse.mp hr)
  · rw [List.length_reverse, length_links, ids]

/-- The last search looks for nodes without a root above them. -/
theorem detached?_eq_none_iff {d : Draft} (hc : d.Closed) : d.detached? = none ↔ d.Rooted := by
  simp only [detached?, Option.map_eq_none_iff, List.find?_eq_none, ids, List.mem_range,
    Bool.not_eq_true', Bool.not_eq_false, getD_reached hc, Rooted]

theorem kind_of_detached? {d : Draft} {e : Defect} (h : d.detached? = some e) :
    e.kind = .detached := by
  obtain ⟨i, -, rfl⟩ := Option.map_eq_some_iff.mp h
  rfl

/-- What makes a draft defective is seen from its keys, links and roots. -/
theorem defect?_congr {d d' : Draft} (hsize : d.size = d'.size) (hroots : d.roots = d'.roots)
    (hkey : d.key = d'.key) (htargets : d.targets = d'.targets) : d.defect? = d'.defect? := by
  have hids : d.ids = d'.ids := by rw [ids, ids, hsize]
  have hlinks : d.links = d'.links := by
    show d.ids.flatMap (fun i => (d.targets i).map _) = d'.ids.flatMap fun i => (d'.targets i).map _
    rw [hids, htargets]
  have howners : d.owners = d'.owners := by rw [owners, owners, hsize, hlinks]
  have hrootList : d.rootList = d'.rootList := by simp only [rootList, hids, howners, hroots]
  have hfirst : ∀ table seen roots,
      firstBadRoot? d table seen roots = firstBadRoot? d' table seen roots := by
    intro table seen roots
    induction roots generalizing seen with
    | nil => rfl
    | cons r rest ih => simp only [firstBadRoot?, hkey, ih]
  have hrepeated : d.repeatedKey? = d'.repeatedKey? := by rw [repeatedKey?, repeatedKey?, hids, hkey]
  have hshared : d.sharedNode? = d'.sharedNode? := by
    simp only [sharedNode?, hlinks, hkey]
  have hroot : d.badRoot? = d'.badRoot? := by rw [badRoot?, badRoot?, howners, hrootList, hfirst]
  have hcycle : d.cycle? = d'.cycle? := by simp only [cycle?, htargets, hsize, hkey]
  have hdetached : d.detached? = d'.detached? := by
    simp only [detached?, reached, hids, htargets, hsize, hroots, hlinks, hkey]
  rw [defect?, defect?, hrepeated, hshared, hroot, hcycle, hdetached, hroots]

/-! ## The verdict -/

/-- What a draft must violate for a defect of a kind to be reported. -/
def Violates (d : Draft) : Defect.Kind → Prop
  | .duplicateNode => ¬ d.DistinctKeys
  | .multipleOwners => ¬ (SingleOwner d.node ∧ d.FreeRoots)
  | .cycle => ¬ Acyclic d.node
  | .detached => ¬ (d.roots ≠ [] → d.Rooted)
  | .danglingLink | .unreadable => False

/-- The kind is the first of a list that the draft violates. -/
def FirstViolated (d : Draft) : List Defect.Kind → Defect.Kind → Prop
  | [], _ => False
  | first :: rest, kind =>
    (d.Violates first ∧ kind = first) ∨ (¬ d.Violates first ∧ d.FirstViolated rest kind)

/-- The kinds of defects in the order in which they are looked for. -/
def checkOrder : List Defect.Kind :=
  [.duplicateNode, .multipleOwners, .cycle, .detached]

/-- The first kind that is violated is violated. -/
theorem FirstViolated.violates {d : Draft} {order : List Defect.Kind} {kind : Defect.Kind}
    (h : d.FirstViolated order kind) : kind ∈ order ∧ d.Violates kind := by
  induction order with
  | nil => exact h.elim
  | cons first rest ih =>
    rcases h with ⟨hv, rfl⟩ | ⟨-, h⟩
    · exact ⟨List.mem_cons_self, hv⟩
    · exact ⟨List.mem_cons_of_mem _ (ih h).1, (ih h).2⟩

/-- There is one first kind only. -/
theorem FirstViolated.unique {d : Draft} {order : List Defect.Kind} {k k' : Defect.Kind}
    (h : d.FirstViolated order k) (h' : d.FirstViolated order k') : k = k' := by
  induction order with
  | nil => exact h.elim
  | cons first rest ih =>
    rcases h with ⟨hv, rfl⟩ | ⟨hv, h⟩
    · rcases h' with ⟨-, rfl⟩ | ⟨hv', -⟩
      · rfl
      · exact absurd hv hv'
    · rcases h' with ⟨hv', -⟩ | ⟨-, h'⟩
      · exact absurd hv' hv
      · exact ih h h'

/-- What the searches for the kinds of a list found: a defect of the first kind that is violated,
or nothing because nothing is violated. -/
def Found (d : Draft) (order : List Defect.Kind) : Option Defect → Prop
  | some e => d.FirstViolated order e.kind
  | none => ∀ kind ∈ order, ¬ d.Violates kind

/-- A search for one kind in front of the searches for others, which may rely on its having found
nothing. -/
theorem Found.or {d : Draft} {first : Defect.Kind} {rest : List Defect.Kind}
    {found found' : Option Defect} (hkind : ∀ e, found = some e → e.kind = first)
    (hnone : found = none ↔ ¬ d.Violates first)
    (hrest : ¬ d.Violates first → d.Found rest found') :
    d.Found (first :: rest) (found.or found') := by
  cases found with
  | some e =>
    have hv : d.Violates first := not_not.mp fun h => Option.some_ne_none e (hnone.mpr h)
    exact Or.inl ⟨hv, hkind e rfl⟩
  | none =>
    have hv := hnone.mp rfl
    have hfound := hrest hv
    rw [Option.none_or]
    cases found' with
    | some e => exact Or.inr ⟨hv, hfound⟩
    | none => exact List.forall_mem_cons.mpr ⟨hv, hfound⟩

/-- The second and the third search together decide about owners. -/
theorem owners_violated_iff {d : Draft} (hc : d.Closed) :
    d.sharedNode?.or d.badRoot? = none ↔ ¬ d.Violates .multipleOwners := by
  rw [Option.or_eq_none_iff, sharedNode?_eq_none_iff, badRoot?_eq_none_iff hc, Violates, not_not]

theorem kind_of_owners {d : Draft} {e : Defect} (h : d.sharedNode?.or d.badRoot? = some e) :
    e.kind = .multipleOwners := by
  rcases Option.or_eq_some_iff.mp h with h | ⟨-, h⟩
  · exact kind_of_sharedNode? h
  · exact kind_of_badRoot? h

/-- The last search is made only if roots were marked. -/
theorem detached_violated_iff {d : Draft} (hc : d.Closed) :
    (if d.roots.isEmpty then none else d.detached?) = none ↔ ¬ d.Violates .detached := by
  rw [Violates, not_not]
  by_cases hnil : d.roots = []
  · simp [hnil]
  · simp [hnil, detached?_eq_none_iff hc]

/-- The searches, one after the other, find a defect of the first kind that is violated. -/
theorem found_defect? {d : Draft} (hc : d.Closed) : d.Found checkOrder d.defect? := by
  have hsearches : d.defect? = d.repeatedKey?.or ((d.sharedNode?.or d.badRoot?).or (d.cycle?.or
      ((if d.roots.isEmpty then none else d.detached?).or none))) := by
    rw [Option.or_none, Option.or_assoc, defect?]
  rw [hsearches]
  refine .or (fun e => kind_of_repeatedKey?) ?_ fun _ => ?_
  · rw [repeatedKey?_eq_none_iff, Violates, not_not]
  refine .or (fun e => kind_of_owners) (owners_violated_iff hc) fun _ => ?_
  refine .or (fun e => kind_of_cycle?) ?_ fun _ => ?_
  · rw [cycle?_eq_none_iff hc, Violates, not_not]
  refine .or (fun e he => ?_) (detached_violated_iff hc) fun _ => ?_
  · split at he
    · cases he
    · exact kind_of_detached? he
  · exact fun kind hmem => absurd hmem List.not_mem_nil

/-- A draft that violates nothing has all the properties of a forest. -/
theorem violates_none_iff {d : Draft} :
    (∀ kind ∈ checkOrder, ¬ d.Violates kind) ↔
      d.DistinctKeys ∧ SingleOwner d.node ∧ d.FreeRoots ∧ Acyclic d.node ∧
        (d.roots ≠ [] → d.Rooted) := by
  simp only [checkOrder, List.forall_mem_cons, Violates, not_not, and_assoc]
  simp

/-- A draft with a graph violates nothing. -/
theorem build_ok_conditions {d : Draft} (hc : d.Closed) {g : Graph} (h : d.build = .ok g) :
    ∀ kind ∈ checkOrder, ¬ d.Violates kind := by
  have hfound := found_defect? hc
  unfold build at h
  split at h
  · cases h
  · rename_i hnone
    rwa [hnone] at hfound

/-- A draft without a graph is refused for the first kind that it violates. -/
theorem build_error_kind {d : Draft} (hc : d.Closed) {e : Defect} (h : d.build = .error e) :
    d.FirstViolated checkOrder e.kind := by
  have hfound := found_defect? hc
  unfold build at h
  split at h
  · rename_i hsome
    cases h
    rwa [hsome] at hfound
  · cases h

/-- **The verdict on a draft.**  A draft that edits lead to has a graph iff its keys are distinct,
every node is the target of at most one edge, the marked roots are distinct and targets of none,
edges lead in no circle, and, if roots were marked, every node lies below one of them.  Otherwise
the kind of the defect is that of the first of these conditions that it violates. -/
theorem build_verdict {d : Draft} (h : d.Reachable) :
    ((∃ g, d.build = .ok g) ↔
      d.DistinctKeys ∧ SingleOwner d.node ∧ d.FreeRoots ∧ Acyclic d.node ∧
        (d.roots ≠ [] → d.Rooted)) ∧
      ∀ kind, (∃ e, d.build = .error e ∧ e.kind = kind) ↔ d.FirstViolated checkOrder kind := by
  have hc := h.closed
  refine ⟨⟨?_, ?_⟩, fun kind => ⟨?_, ?_⟩⟩
  · rintro ⟨g, hg⟩
    exact violates_none_iff.mp (build_ok_conditions hc hg)
  · intro hall
    have hnone := violates_none_iff.mpr hall
    cases hb : d.build with
    | ok g => exact ⟨g, rfl⟩
    | error e =>
      obtain ⟨hmem, hv⟩ := (build_error_kind hc hb).violates
      exact absurd hv (hnone _ hmem)
  · rintro ⟨e, he, rfl⟩
    exact build_error_kind hc he
  · intro hfirst
    cases hb : d.build with
    | ok g =>
      obtain ⟨hmem, hv⟩ := hfirst.violates
      exact absurd hv (build_ok_conditions hc hb _ hmem)
    | error e => exact ⟨e, rfl, (build_error_kind hc hb).unique hfirst⟩

/-- A root, and beside it two nodes that follow each other. -/
def ring : Draft :=
  [.root "A" "arduino_entry", .node "B" "time_delay", .node "C" "time_delay", .setNext 1 2,
    .setNext 2 1].foldl (fun d e => Edit.apply e d) {}

theorem ring_reachable : ring.Reachable :=
  Draft.reachable_of_edits rfl

/-- Its circle is reported, although no root leads to it either. -/
theorem build_verdict_ring :
    ring.Reachable ∧ ring.FirstViolated checkOrder .cycle ∧ ¬ ∃ g, ring.build = .ok g := by
  have hfirst := ((build_verdict ring_reachable).2 .cycle).mp ⟨_, rfl, rfl⟩
  refine ⟨ring_reachable, hfirst, fun hok => ?_⟩
  have hall := (build_verdict ring_reachable).1.mp hok
  exact hfirst.violates.2 hall.2.2.2.1

end Draft

end BlockCompiler

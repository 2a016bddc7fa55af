import BlockCompiler.Proofs.Graph.Validation

/-!
# Circles that are reported

If links lead in a circle, the message of the defect shows that circle, key by key: the
nodes on the stack of the search from the one on that is come to again.  What is shown is
a circle of the draft (`IsCircle`), with no node twice on it.
-/

namespace BlockCompiler

namespace Draft

variable {d : Draft}

/-- Every node on a circle leads somewhere, so it is a node of the draft. -/
theorem lt_size_of_isCircle {path : List NodeId} (h : IsCircle d.node path) {i : NodeId}
    (hi : i ∈ path.dropLast) : i < d.size := by
  have hleads := h.leads
  clear h
  induction path with
  | nil => cases hi
  | cons a path ih =>
    cases path with
    | nil => cases hi
    | cons b path =>
      obtain ⟨hab, htail⟩ := List.isChain_cons_cons.mp hleads
      rcases List.mem_cons.mp hi with rfl | hi
      · exact d.lt_size_of_leads hab
      · exact ih hi htail

/-- A defect of a circle shows the keys on it. -/
theorem exists_circle_of_cycle? {e : Defect} (h : d.cycle? = some e) :
    ∃ path, IsCircle d.node path ∧
      e.message = "Cycle detected in block containment: " ++ " -> ".intercalate (path.map d.key) ∧
      e.node = path.head?.map d.key := by
  rw [cycle?] at h
  obtain ⟨⟨i, way⟩, hfound, rfl⟩ := Option.map_eq_some_iff.mp h
  exact ⟨i :: way, Descent.isCircle_of_circle? (fun a b => d.lt_size_of_leads) hfound, rfl, rfl⟩

/-- Circles are looked for once the keys are known to be distinct. -/
theorem cycle?_of_build {e : Defect} (hb : d.build = .error e) (hkind : e.kind = .cycle) :
    d.DistinctKeys ∧ d.cycle? = some e := by
  unfold build at hb
  split at hb
  · rename_i hdefect
    cases hb
    -- What the other searches find is of another kind.
    rcases Option.or_eq_some_iff.mp hdefect with h | ⟨hkeys, h⟩
    · rw [kind_of_repeatedKey? h] at hkind
      cases hkind
    rcases Option.or_eq_some_iff.mp h with h | ⟨-, h⟩
    · rw [kind_of_sharedNode? h] at hkind
      cases hkind
    rcases Option.or_eq_some_iff.mp h with h | ⟨-, h⟩
    · rw [kind_of_badRoot? h] at hkind
      cases hkind
    rcases Option.or_eq_some_iff.mp h with h | ⟨-, h⟩
    · exact ⟨d.repeatedKey?_eq_none_iff.mp hkeys, h⟩
    · split at h
      · cases h
      · rw [kind_of_detached? h] at hkind
        cases hkind
  · cases hb

/-- **A reported circle is one.**  If a draft is refused for a circle, the keys in the message are
those of the nodes on a path of at least one edge that leads from a node back to that node.  No node
is visited twice before, so no key is shown twice either, and the defect is ascribed to the node
that the path begins with. -/
theorem build_reports_circle {e : Defect} (hb : d.build = .error e) (hkind : e.kind = .cycle) :
    ∃ path, IsCircle d.node path ∧ (path.dropLast.map d.key).Nodup ∧
      e.message = "Cycle detected in block containment: " ++ " -> ".intercalate (path.map d.key) ∧
      e.node = path.head?.map d.key := by
  obtain ⟨hkeys, hcycle⟩ := cycle?_of_build hb hkind
  obtain ⟨path, hcircle, hmessage, hnode⟩ := exists_circle_of_cycle? hcycle
  refine ⟨path, hcircle, hcircle.nodup.map_on fun i hi k hk heq => ?_, hmessage, hnode⟩
  exact hkeys i k (lt_size_of_isCircle hcircle hi) (lt_size_of_isCircle hcircle hk) heq

/-- Two conditionals and a block between them that lead in a circle, and a value that hangs from
it. -/
def knot : Draft :=
  [.node "n" "math_number", .node "a" "controls_if", .node "b" "time_delay",
    .node "c" "controls_if", .setValue 1 "IF0" 0, .setStatement 1 "DO0" 2, .setNext 2 3,
    .setStatement 3 "DO0" 1].foldl (fun d e => Edit.apply e d) {}

/-- The message shows the circle from the first of its nodes on; the value, which comes before them
all, is not on it. -/
theorem build_reports_circle_knot :
    knot.build = .error (.cycle "a" ["b", "c", "a"]) ∧
      (Defect.cycle "a" ["b", "c", "a"]).kind = .cycle ∧
      ∃ path, IsCircle knot.node path ∧ (path.dropLast.map knot.key).Nodup ∧
        "Cycle detected in block containment: a -> b -> c -> a" =
          "Cycle detected in block containment: " ++ " -> ".intercalate (path.map knot.key) ∧
        some "a" = path.head?.map knot.key :=
  ⟨rfl, rfl, build_reports_circle (e := .cycle "a" ["b", "c", "a"]) rfl rfl⟩

end Draft

end BlockCompiler

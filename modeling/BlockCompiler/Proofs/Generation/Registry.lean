import BlockCompiler.Compile
import BlockCompiler.Proofs.Dictionary

/-!
# The generators of a target

A target's backend has one generator for each of its types.  `typeKinds` lists the types
with their kinds, and looking a type up is the same as finding it in that list, since no
type is listed twice.
-/

namespace BlockCompiler

namespace Target

/-- The types of a target, with the kind of their blocks. -/
def typeKinds (t : Target) : List (String × BlockKind) :=
  (t.entryType, .entry) :: sharedTypes

theorem generators_eq (t : Target) :
    t.backend.generators = Dict.ofList (t.typeKinds.map fun e => (e.1, ⟨t, e.2⟩)) := rfl

variable {t : Target}

theorem mem_typeKinds_of_get? {type : String} {g : Generator}
    (h : t.backend.generators.get? type = some g) : (type, g.kind) ∈ t.typeKinds := by
  rw [generators_eq] at h
  obtain ⟨e, he, heq⟩ := List.mem_map.mp (Dict.mem_of_get?_ofList h)
  cases heq
  exact he

theorem nodup_typeKinds (t : Target) : (t.typeKinds.map (·.1)).Nodup := by
  cases t <;> decide

theorem get?_of_mem_typeKinds {e : String × BlockKind} (h : e ∈ t.typeKinds) :
    t.backend.generators.get? e.1 = some ⟨t, e.2⟩ := by
  have hkeys : ((t.typeKinds.map fun e => (e.1, (⟨t, e.2⟩ : Generator))).map (·.1)).Nodup := by
    rw [List.map_map]
    exact t.nodup_typeKinds
  rw [generators_eq]
  exact Dict.get?_ofList_of_mem hkeys (e := (e.1, ⟨t, e.2⟩)) (List.mem_map.mpr ⟨e, h, rfl⟩)

theorem eq_of_get? {type : String} {gen : Generator}
    (h : t.backend.generators.get? type = some gen) : gen = ⟨t, gen.kind⟩ := by
  have hget := get?_of_mem_typeKinds (mem_typeKinds_of_get? h)
  rw [h] at hget
  exact Option.some.inj hget

end Target

theorem Job.blockScript_of_mem {g : Graph} {t : Target} {i : NodeId} {kind : BlockKind}
    (h : ((g.node i).type, kind) ∈ t.typeKinds) :
    Job.blockScript ⟨g, t.backend⟩ i = Generator.script ⟨t, kind⟩ ⟨g, t.backend⟩ i := by
  simp only [blockScript, node, Target.get?_of_mem_typeKinds h]

end BlockCompiler

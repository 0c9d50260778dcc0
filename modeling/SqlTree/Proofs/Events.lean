import SqlTree.Proofs.Literals

/-!
What a compilation logs.

A rejected operator is logged where it is found, which may be anywhere in the tree, and the fault
then goes up through all nodes around it. Nothing on this way logs anything or mends the fault,
so the log of a compilation can be told from its outcome, and the outcome from its log.
-/

namespace SqlTree

/-- What the outcome of a compilation leaves in the log. -/
def Root.lastEvents (root : Root) (d : Dialect) : Except Fault Query → List Event
  | .ok _ => [.compiled d.name root.literals.length]
  | .error (.unsupported op dialect) => [.rejected op dialect]
  | .error (.malformed _) => []

/-- The event as it is shown, without its fields. -/
def Event.line (e : Event) : Level × String := (e.level, e.message)

namespace Root

variable (d : Dialect) (root : Root)

lemma toList_events_fault (f : Fault) : f.events.toList = root.lastEvents d (.error f) := by
  cases f <;> rfl

/-- A compilation logs its start and then what its outcome leaves. -/
lemma toList_events :
    (compile d root).events.toList = .compiling d.name :: root.lastEvents d (root.toQuery d) := by
  cases hf : root.faults d with
  | nil =>
    have hsize : (root.query d).params.size = root.literals.length := by
      rw [query, List.size_toArray, values_pieces]
    rw [toQuery_of_sound hf, compile_of_sound hf, hsize, lastEvents]
  | cons f fs =>
    have hhead : (root.faults d).head? = some f := by rw [hf]; rfl
    rw [toQuery_of_fault hhead, compile_of_fault hhead, Array.toList_append,
      root.toList_events_fault d]
    rfl

/-- **The log is determined by the outcome.** It holds the start of the compilation, the number
of literals if there is a query, the rejection if an operator was rejected, and nothing else. So
a rejection is logged if and only if it is the fault that is reported. -/
theorem events_of_outcome :
    (compile d root).events.toList = .compiling d.name :: root.lastEvents d (root.toQuery d) ∧
    ((compile d root).events.toList.map Event.line =
      (.trace, "compiling query") ::
        match root.toQuery d with
        | .ok _ => [(.debug, "compiled query")]
        | .error (.unsupported ..) => [(.debug, "operator rejected by dialect")]
        | .error (.malformed _) => []) ∧
    ∀ op name, .rejected op name ∈ (compile d root).events ↔
      root.toQuery d = .error (.unsupported op name) := by
  have hevents := toList_events d root
  refine ⟨hevents, ?_, fun op name => ?_⟩
  · rw [hevents]
    rcases root.toQuery d with (⟨op, name⟩ | defect) | q <;> rfl
  · rw [← Array.mem_toList_iff, hevents]
    rcases root.toQuery d with (⟨op', name'⟩ | defect) | q <;> simp [lastEvents, eq_comm]

end Root

end SqlTree

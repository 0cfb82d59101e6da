import Mathlib.Tactic.Common

/-!
# Histories in which every entry has its reason

A history is a list with the latest entry first. `Justified J log` says that `J` holds of
every entry and of what came before it.
-/
namespace History

variable {α : Type*} {J : α → List α → Prop} {o : α} {log newer older : List α}

def Justified (J : α → List α → Prop) (log : List α) : Prop :=
  ∀ newer o older, log = newer ++ o :: older → J o older

theorem Justified.of_mem (h : Justified J log) (ho : o ∈ log) :
    ∃ newer older, log = newer ++ o :: older ∧ J o older := by
  obtain ⟨newer, older, hlog⟩ := List.append_of_mem ho
  exact ⟨newer, older, hlog, h newer o older hlog⟩

@[simp] theorem justified_nil : Justified J [] := by
  intro newer o older h
  simp at h

@[simp] theorem justified_cons : Justified J (o :: log) ↔ J o log ∧ Justified J log := by
  refine ⟨fun h => ⟨h [] o log rfl, fun newer p older hlog => ?_⟩, fun ⟨ho, h⟩ => ?_⟩
  · exact h (o :: newer) p older (by rw [hlog, List.cons_append])
  · intro newer p older hlog
    cases newer with
    | nil =>
      obtain ⟨rfl, rfl⟩ := List.cons.inj hlog
      exact ho
    | cons q newer => exact h newer p older (List.cons.inj hlog).2

end History

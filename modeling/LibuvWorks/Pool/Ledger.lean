import LibuvWorks.Pool.Turns

/-!
# The life of a work item

A `View` is what the pool says about one work item: where it is queued, who has it in its
hands, and its history. `Legal` lists the views of the life of an item, from the submission
to the callback; in each of them the item is in one place.
-/
namespace LibuvWorks.Threadpool

open Function
open Function (update)

inductive Hand where
  | none : Hand
  | posting : Hand
  /-- It called `uv__work_cancel`, up to the test. -/
  | asking : Hand
  | refused : Hand
  /-- It removed the item from its queue. -/
  | cancelling : Hand
  | marked : Hand
  /-- It queued the item for `done`, before `uv__work_cancel` returns. -/
  | returning : Hand
  deriving DecidableEq

structure View (n : ℕ) where
  submitted : Bool
  hand : Hand
  /-- How often it is in `wq`. -/
  queued : ℕ
  /-- The workers that have it, and whether they called its work function. -/
  workers : Fin n → Option Bool
  /-- How often it is in `loop->wq`. -/
  finished : ℕ
  /-- How often it is in the local queue of `uv__work_done`. -/
  taken : ℕ
  work : WorkFn
  linkEmpty : Bool
  ran : ℕ
  returned : List ℤ
  done : List ℤ

def AllBusy (returned : List ℤ) : Prop := ∀ err ∈ returned, err = ebusy

def AllZero (returned : List ℤ) : Prop := ∀ err ∈ returned, err = 0

inductive Legal {n : ℕ} : View n → Prop
  | fresh (work : WorkFn) (linkEmpty : Bool) :
    Legal ⟨false, .none, 0, fun _ => none, 0, 0, work, linkEmpty, 0, [], []⟩
  | posting (linkEmpty : Bool) :
    Legal ⟨true, .posting, 0, fun _ => none, 0, 0, .submitted, linkEmpty, 0, [], []⟩
  | queued (hand : Hand) (hhand : hand = .none ∨ hand = .asking) :
    Legal ⟨true, hand, 1, fun _ => none, 0, 0, .submitted, false, 0, [], []⟩
  | working (hand : Hand) (i : Fin n) (ran : Bool) (returned : List ℤ)
    (hhand : hand = .none ∨ hand = .asking ∨ hand = .refused) (hbusy : AllBusy returned) :
    Legal ⟨true, hand, 0, update (fun _ => none) i (some ran), 0, 0, .submitted, true, ran.toNat,
      returned, []⟩
  | executed (hand : Hand) (finished taken : ℕ) (returned : List ℤ)
    (hhand : hand = .none ∨ hand = .asking ∨ hand = .refused) (hone : finished + taken = 1)
    (hbusy : AllBusy returned) :
    Legal ⟨true, hand, 0, fun _ => none, finished, taken, .null, false, 1, returned, []⟩
  | cancelling (work : WorkFn) (returned : List ℤ) (hzero : AllZero returned) :
    Legal ⟨true, .cancelling, 0, fun _ => none, 0, 0, work, false, 0, returned, []⟩
  | marked (returned : List ℤ) (hzero : AllZero returned) :
    Legal ⟨true, .marked, 0, fun _ => none, 0, 0, .cancelled, false, 0, returned, []⟩
  | returning (returned : List ℤ) (hzero : AllZero returned) :
    Legal ⟨true, .returning, 0, fun _ => none, 1, 0, .cancelled, false, 0, returned, []⟩
  | cancelled (hand : Hand) (finished taken : ℕ) (returned : List ℤ)
    (hhand : hand = .none ∨ hand = .asking) (hone : finished + taken = 1)
    (hne : returned ≠ []) (hzero : AllZero returned) :
    Legal ⟨true, hand, 0, fun _ => none, finished, taken, .cancelled, false, 0, returned, []⟩
  | doneExecuted (linkEmpty : Bool) (returned : List ℤ) (hbusy : AllBusy returned) :
    Legal ⟨true, .none, 0, fun _ => none, 0, 0, .null, linkEmpty, 1, returned, [0]⟩
  | doneCancelled (linkEmpty : Bool) (returned : List ℤ) (hne : returned ≠ [])
    (hzero : AllZero returned) :
    Legal ⟨true, .none, 0, fun _ => none, 0, 0, .cancelled, linkEmpty, 0, returned, [ecanceled]⟩

variable {n : ℕ} {v : View n}

/-! ### The next stage of a life

Each lemma takes a legal view to the stage that one of the turns leads to. -/

namespace Legal

section

variable (h : Legal v)
include h

theorem submit (hnew : v.submitted = false) :
    Legal { v with submitted := true, hand := .posting, work := .submitted } := by
  cases h with
  | fresh => exact .posting _
  | _ => cases hnew

theorem post (hhand : v.hand = .posting) :
    Legal { v with hand := .none, queued := v.queued + 1, linkEmpty := false } := by
  cases h with
  | posting => exact .queued _ (.inl rfl)
  | _ => grind

theorem take (hqueued : 0 < v.queued) (i : Fin n) :
    Legal { v with
      queued := v.queued - 1
      linkEmpty := true
      workers := update v.workers i (some false) } := by
  cases h with
  | queued hand hhand => exact .working hand i false [] (by tauto) (by simp [AllBusy])
  | _ => cases hqueued

theorem run {i : Fin n} (hi : v.workers i = some false) :
    Legal { v with ran := v.ran + 1, workers := update v.workers i (some true) } := by
  cases h with
  | working hand j ran returned hhand hbusy =>
    obtain rfl : i = j := by
      by_contra hne
      simp [update_of_ne hne] at hi
    obtain rfl : ran = false := by simpa using hi
    simpa using working hand i true returned hhand hbusy
  | _ => cases hi

theorem finish {i : Fin n} (hi : v.workers i = some true) :
    Legal { v with
      work := .null
      finished := v.finished + 1
      linkEmpty := false
      workers := update v.workers i none } := by
  cases h with
  | working hand j ran returned hhand hbusy =>
    obtain rfl : i = j := by
      by_contra hne
      simp [update_of_ne hne] at hi
    obtain rfl : ran = true := by simpa using hi
    have hnone : update (fun _ : Fin n => (none : Option Bool)) i none = fun _ => none :=
      update_eq_self i _
    simpa [hnone] using executed hand 1 0 returned hhand rfl hbusy
  | _ => cases hi

theorem work_eq {i : Fin n} {b : Bool} (hi : v.workers i = some b) :
    v.work = .submitted := by
  cases h with
  | working => rfl
  | _ => cases hi

theorem ask (hold : v.submitted = true) (hdone : v.done = [])
    (hhand : v.hand = .none) : Legal { v with hand := .asking } := by
  cases h with
  | fresh => cases hold
  | queued => exact .queued _ (.inr rfl)
  | working _ i ran returned _ hbusy => exact .working _ i ran returned (.inr (.inl rfl)) hbusy
  | executed _ finished taken returned _ hone hbusy =>
    exact .executed _ finished taken returned (.inr (.inl rfl)) hone hbusy
  | cancelled _ finished taken returned _ hone hne hzero =>
    exact .cancelled _ finished taken returned (.inr rfl) hone hne hzero
  | doneExecuted | doneCancelled => cases hdone
  | _ => cases hhand

theorem remove (hhand : v.hand = .asking) (hlink : v.linkEmpty = false)
    (hwork : v.work ≠ .null) :
    Legal { v with
      hand := .cancelling
      queued := v.queued - 1
      finished := v.finished - 1
      taken := v.taken - 1 } := by
  cases h with
  | queued => exact .cancelling _ _ (by simp [AllZero])
  | cancelled _ finished taken returned _ hone _ hzero =>
    have hf : finished - 1 = 0 := by omega
    have ht : taken - 1 = 0 := by omega
    simpa only [hf, ht] using cancelling .cancelled returned hzero
  | _ => grind

theorem refuse (hhand : v.hand = .asking)
    (hno : v.linkEmpty = true ∨ v.work = .null) : Legal { v with hand := .refused } := by
  cases h with
  | working _ i ran returned _ hbusy => exact .working _ i ran returned (.inr (.inr rfl)) hbusy
  | executed _ finished taken returned _ hone hbusy =>
    exact .executed _ finished taken returned (.inr (.inr rfl)) hone hbusy
  | _ => grind

theorem busy (hhand : v.hand = .refused) :
    Legal { v with hand := .none, returned := v.returned ++ [ebusy] } := by
  have hall {returned : List ℤ} (hbusy : AllBusy returned) : AllBusy (returned ++ [ebusy]) := by
    simpa [AllBusy, or_imp, forall_and] using hbusy
  cases h with
  | working _ i ran returned _ hbusy => exact .working _ i ran _ (.inl rfl) (hall hbusy)
  | executed _ finished taken returned _ hone hbusy =>
    exact .executed _ finished taken _ (.inl rfl) hone (hall hbusy)
  | _ => grind

theorem mark (hhand : v.hand = .cancelling) :
    Legal { v with hand := .marked, work := .cancelled } := by
  cases h with
  | cancelling _ returned hzero => exact .marked returned hzero
  | _ => grind

theorem requeue (hhand : v.hand = .marked) :
    Legal { v with hand := .returning, finished := v.finished + 1, linkEmpty := false } := by
  cases h with
  | marked returned hzero => exact .returning returned hzero
  | _ => grind

theorem returnZero (hhand : v.hand = .returning) :
    Legal { v with hand := .none, returned := v.returned ++ [0] } := by
  cases h with
  | returning returned hzero =>
    refine .cancelled _ 1 0 _ (.inl rfl) rfl (by simp) ?_
    simpa [AllZero, or_imp, forall_and] using hzero
  | _ => grind

theorem move (hhand : v.hand = .none) (htaken : v.taken = 0) :
    Legal { v with finished := 0, taken := v.finished } := by
  cases h with
  | executed _ finished taken returned hhand' hone hbusy =>
    exact .executed _ 0 finished returned hhand' (by simp_all) hbusy
  | cancelled _ finished taken returned hhand' hone hne hzero =>
    exact .cancelled _ 0 finished returned hhand' (by simp_all) hne hzero
  | returning => cases hhand
  | fresh => exact .fresh ..
  | posting => exact .posting ..
  | queued _ h' => exact .queued _ h'
  | working _ i ran returned h' hbusy => exact .working _ i ran returned h' hbusy
  | cancelling _ returned hzero => exact .cancelling _ returned hzero
  | marked returned hzero => exact .marked returned hzero
  | doneExecuted _ returned hbusy => exact .doneExecuted _ returned hbusy
  | doneCancelled _ returned hne hzero => exact .doneCancelled _ returned hne hzero

theorem callDone (hhand : v.hand = .none) (htaken : 0 < v.taken) :
    Legal { v with
      taken := v.taken - 1
      done := v.done ++ [if v.work = .cancelled then ecanceled else 0] } := by
  cases h with
  | executed _ finished taken returned _ hone hbusy =>
    cases hhand
    have hf : finished = 0 := by simp only at htaken; omega
    have ht : taken - 1 = 0 := by omega
    simpa [hf, ht] using doneExecuted false returned hbusy
  | cancelled _ finished taken returned _ hone hne hzero =>
    cases hhand
    have hf : finished = 0 := by simp only at htaken; omega
    have ht : taken - 1 = 0 := by omega
    simpa [hf, ht] using doneCancelled false returned hne hzero
  | _ => cases htaken

end

end Legal

end LibuvWorks.Threadpool

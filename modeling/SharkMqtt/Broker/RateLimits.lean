import SharkMqtt.Broker.SessionSetup

/-!
# Rate limits

`broker/rate_limit.go`. The publish tracker counts from the start of a window and begins again
with the first attempt after the window has passed. So two publishes just before a restart and
two just after it can be close together (`burst_across_restart`). Where every restart finds the
publishes before it a window old, no interval of that length has more than the maximum
(`publishes_le_of_spaced`).
-/

namespace SharkMqtt.Broker.RateLimits

open Lib
open SessionSetup (PublishRateTracker)

def allowPublish (t : PublishRateTracker) (now : ℕ) : Bool × PublishRateTracker :=
  if t.maxRate ≤ 0 then (true, t)
  else
    let t := if t.windowStart + t.window ≤ now then { t with count := 0, windowStart := now } else t
    if t.maxRate ≤ t.count then (false, t) else (true, { t with count := t.count + 1 })

/-- A tracker with the times of the publishes it admitted and of the latest attempt. -/
structure State where
  tracker : PublishRateTracker
  admitted : List ℕ := []
  latest : ℕ := 0

/-- An attempt; time does not go back. -/
def step (s : State) (now : ℕ) : Option State :=
  if now < s.latest then none
  else
    let r := allowPublish s.tracker now
    some ⟨r.2, if r.1 then s.admitted ++ [now] else s.admitted, now⟩

/-- An attempt that starts the window again finds what was admitted before a window old. -/
def Spaced (s : State) (now : ℕ) : Prop :=
  s.tracker.windowStart + s.tracker.window ≤ now →
    ∀ a ∈ s.admitted, a + s.tracker.window ≤ now

instance (s : State) (now : ℕ) : Decidable (Spaced s now) := inferInstanceAs (Decidable (_ → _))

/-- What was admitted falls into what was a window old at a restart and what is counted since. -/
structure Counted (t : PublishRateTracker) (s : State) (old cur : List ℕ) : Prop where
  admitted : s.admitted = old ++ cur
  tracker : ∃ windowStart, s.tracker = { t with count := cur.length, windowStart }
  apart : ∀ a ∈ old, a + t.window ≤ s.latest
  le : (cur.length : ℤ) ≤ t.maxRate

variable {t : PublishRateTracker} {s s' : State} {now start : ℕ}

/-- An attempt may start the window again, and is admitted or not. -/
theorem Counted.step {old cur : List ℕ} (h : Counted t s old cur) (hrate : 0 < t.maxRate)
    (hspaced : Spaced s now) (hstep : step s now = some s') : ∃ old cur, Counted t s' old cur := by
  obtain ⟨hadmitted, ⟨windowStart, htracker⟩, hapart, hle⟩ := h
  unfold RateLimits.step at hstep
  split_ifs at hstep with hback
  cases hstep
  have hold : ∀ a ∈ old, a + t.window ≤ now := fun a ha => (hapart a ha).trans (not_lt.mp hback)
  unfold Spaced at hspaced
  rw [htracker, hadmitted] at hspaced
  simp only [htracker, hadmitted, allowPublish, not_le.mpr hrate, if_false]
  by_cases hrestart : windowStart + t.window ≤ now
  · simp only [hrestart, not_le.mpr hrate, if_true, if_false]
    exact ⟨old ++ cur, [now], rfl, ⟨now, rfl⟩, hspaced hrestart, hrate⟩
  · simp only [hrestart, if_false]
    by_cases hfull : t.maxRate ≤ cur.length
    · simp only [hfull, if_true]
      exact ⟨old, cur, rfl, ⟨windowStart, rfl⟩, hold, hle⟩
    · simp only [hfull, if_false]
      refine ⟨old, cur ++ [now], List.append_assoc .., ⟨windowStart, by simp⟩, hold, ?_⟩
      rw [List.length_append]
      exact not_le.mp hfull

def State.within (s : State) (start window : ℕ) : List ℕ :=
  s.admitted.filter fun a => start ≤ a ∧ a < start + window

theorem Counted.within_le {old cur : List ℕ} (h : Counted t s old cur)
    (hin : s.latest < start + t.window) : ((s.within start t.window).length : ℤ) ≤ t.maxRate := by
  have hout : old.filter (fun a => start ≤ a ∧ a < start + t.window) = [] := by
    refine List.filter_eq_nil_iff.mpr fun a ha => ?_
    have hold := h.apart a ha
    simp only [decide_eq_true_eq]
    omega
  unfold State.within
  rw [h.admitted, List.filter_append, hout, List.nil_append]
  exact (Int.ofNat_le.mpr (List.length_filter_le _ _)).trans h.le

theorem within_step {window : ℕ} (hstep : step s now = some s')
    (hout : ¬s'.latest < start + window) : s'.within start window = s.within start window := by
  unfold step at hstep
  split_ifs at hstep
  cases hstep
  unfold State.within
  split
  · simp [List.filter_append, show ¬now < start + window from hout]
  · rfl

/-- **No more than the maximum in any interval as long as the window**, when every restart of the
count finds the publishes admitted before a window old. -/
theorem publishes_le_of_spaced (t : PublishRateTracker) (hrate : 0 < t.maxRate)
    (hnew : t.count = 0) (times : List ℕ) (s : State) (hspaced : Along step Spaced ⟨t, [], 0⟩ times)
    (hrun : exec step ⟨t, [], 0⟩ times = some s) (start : ℕ) :
    ((s.within start t.window).length : ℤ) ≤ t.maxRate := by
  refine (exec_invariant (fun s => (∃ old cur, Counted t s old cur) ∧
    ((s.within start t.window).length : ℤ) ≤ t.maxRate) ?_ ?_ hspaced hrun).2
  · rintro s now s' ⟨⟨old, cur, hcounted⟩, hle⟩ hspaced hstep
    obtain ⟨old, cur, hcounted⟩ := hcounted.step hrate hspaced hstep
    refine ⟨⟨old, cur, hcounted⟩, ?_⟩
    by_cases hin : s'.latest < start + t.window
    · exact hcounted.within_le hin
    · rw [within_step hstep hin]
      exact hle
  · exact ⟨⟨[], [], rfl, ⟨t.windowStart, by simp [← hnew]⟩, nofun, hrate.le⟩, hrate.le⟩

/-- A window of 10 that is started again three times, and one attempt too many. -/
theorem publishes_le_of_spaced_restarts :
    let t : PublishRateTracker := { window := 10, maxRate := 2, windowStart := 0 }
    ∃ s, exec step ⟨t, [], 0⟩ [5, 25, 45, 46, 47, 65] = some s ∧
      s.admitted = [5, 25, 45, 46, 65] ∧ ((s.within 40 10).length : ℤ) ≤ 2 :=
  ⟨_, rfl, by decide, publishes_le_of_spaced { window := 10, maxRate := 2, windowStart := 0 }
    (by decide) rfl [5, 25, 45, 46, 47, 65] _ (by decide) rfl 40⟩

/-- At most two in a window of 10: two just before it has passed and two just after make four
within the time of 1. -/
theorem burst_across_restart :
    let t : PublishRateTracker := { window := 10, maxRate := 2, windowStart := 0 }
    ∃ s, exec step ⟨t, [], 0⟩ [9, 9, 10, 10] = some s ∧ s.within 9 10 = [9, 9, 10, 10] :=
  ⟨_, rfl, by decide⟩

end SharkMqtt.Broker.RateLimits

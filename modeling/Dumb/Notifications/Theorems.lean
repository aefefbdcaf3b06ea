import Dumb.Notifications.Lemmas.Delivery

/-!
# What the delivery of notifications guarantees
-/

namespace Dumb.Notifications

open Py

/-- In every run deliveries move as they may and calls are spaced and limited; they keep to the global flag where it is not
switched off under a tick. -/
theorem deliveries_sound (text : Text) (c : Config) (startup : Bool) (now : ℚ) (steps : List Step)
    (hproper : Along (World.step text) Proper (World.start c startup now) steps) :
    Along (World.step text) (fun w s => Moves w (w.step text s)) (World.start c startup now) steps ∧
      (∀ id, Spaced (callsOf id (steps.foldl (World.step text) (World.start c startup now)).calls)) ∧
      ((∀ s ∈ steps, KeepsAttempts c.maxAttempts s) →
        ∀ id, (callsOf id (steps.foldl (World.step text) (World.start c startup now)).calls).length ≤ c.maxAttempts) ∧
      (Along (World.step text) StaysOn (World.start c startup now) steps →
        Along (World.step text) (Gated text) (World.start c startup now) steps) := by
  have hinv := hproper.always (I := Inv) (fun _ _ hs hw => (step_fine text hw hs).1) (inv_start c startup now)
  refine ⟨?_, ?_, ?_, ?_⟩
  · exact hinv.imp fun _ _ _ hs => (step_fine text hs.2 hs.1).2
  · exact (hproper.foldl (fun _ _ _ hs hw => (step_fine text hw hs).1) (inv_start c startup now)).spaced
  · intro hkeeps
    have hlimited := hinv.foldl (I := Limited c.maxAttempts) (fun _ s hs hw h => h.step hw.2 (hkeeps s hs))
      (limited_start c startup now)
    exact hlimited.calls
  · intro hon
    have hgate := (hon.and hinv).always (I := Gate) (fun _ _ hs h => h.step hs.1) fun _ _ he => absurd he List.not_mem_nil
    exact hgate.imp fun _ s _ hs => hs.2.gated hs.1.2.2 s

def webhook (id : String) : Destination where
  id := id
  enabled := true
  provider := .webhook
  url := "https://example.invalid"
  minimumSeverity := .warning
  eventTypes := []
  serviceNames := []
  cooldownSec := 300
  sendRecovery := true

def twoWebhooks (enabled : Bool) : Config where
  enabled := enabled
  historyRetentionDays := 30
  maxAttempts := 3
  retryBaseSec := 30
  destinations := [webhook "x", webhook "y"]
  one_le_maxAttempts := by decide
  one_le_retryBaseSec := by decide

def updateFailed : Emit := ⟨"update.failed", .critical, some "rclone", none, none, none, false, false⟩

def bothQueued : List Step := [.emit updateFailed, .record 0 "a", .record 0 "b"]

def bothSent : List Step :=
  bothQueued ++ [.tick, .query, .deliver, .answer none, .finishDelivery, .deliver, .answer (some "timeout"), .finishDelivery,
    .deliver, .wait 30, .tick, .query, .deliver, .answer none, .finishDelivery, .deliver, .clearHistory]

theorem bothSent_sound :
    Along (World.step .ascii) (fun w s => Moves w (w.step .ascii s)) (World.start (twoWebhooks true) true 0) bothSent ∧
      (∀ id, Spaced (callsOf id (bothSent.foldl (World.step .ascii) (World.start (twoWebhooks true) true 0)).calls)) ∧
      (∀ id, (callsOf id (bothSent.foldl (World.step .ascii) (World.start (twoWebhooks true) true 0)).calls).length ≤ 3) ∧
      Along (World.step .ascii) (Gated .ascii) (World.start (twoWebhooks true) true 0) bothSent := by
  have hkeeps : ∀ s ∈ bothSent, KeepsAttempts 3 s := by simp [bothSent, bothQueued, KeepsAttempts]
  have hon : Along (World.step .ascii) StaysOn (World.start (twoWebhooks true) true 0) bothSent := by decide +kernel
  obtain ⟨hmoves, hspaced, hlimited, hgated⟩ := deliveries_sound .ascii (twoWebhooks true) true 0 bothSent (by decide +kernel)
  exact ⟨hmoves, hspaced, hlimited hkeeps, hgated hon⟩

def switchedOff : List Step :=
  bothQueued ++ [.tick, .query, .deliver, .configure (twoWebhooks false), .answer none, .finishDelivery]

/-- The second one is sent all the same. -/
theorem disabled_sends :
    Along (World.step .ascii) Proper (World.start (twoWebhooks true) true 0) (switchedOff ++ [.deliver]) ∧
      ¬Along (World.step .ascii) (Gated .ascii) (World.start (twoWebhooks true) true 0) (switchedOff ++ [.deliver]) := by
  constructor
  · decide +kernel
  · intro h
    have hlast : Gated .ascii (switchedOff.foldl (World.step .ascii) (World.start (twoWebhooks true) true 0)) .deliver :=
      (along_append.1 h).2.1
    rcases hlast ⟨"b", 0, none⟩ (by decide +kernel) with hon | ⟨d, hd, hforced⟩
    · revert hon
      decide +kernel
    · have hnone : ((switchedOff.foldl (World.step .ascii) (World.start (twoWebhooks true) true 0)).deliveries.get? "b").any
          Delivery.bypassEnabled = false := by decide +kernel
      rw [hd, Option.any_some, hforced] at hnone
      cases hnone

end Dumb.Notifications

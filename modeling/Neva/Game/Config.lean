import Neva.Schema

/-!
# Game configuration and the inline audio check

The knobs of `app/game/config.py` that the modelled code reads, and `check_audio_file` of
`app/game/audio_checks.py`.  The check runs `ffprobe` and `ffmpeg` on the file just written; what
those programs report for given bytes is `Probes`, and whether they exceed their timeout is drawn
by the caller.
-/

set_option autoImplicit false

namespace Neva

/-- `GameFeatureConfig` -/
structure GameFeatureConfig where
  audioMinDurationS : ℚ := 1
  audioMaxDurationS : ℚ := 8
  silenceMeanVolumeDb : ℚ := -40
  maxAudioBytes : ℕ := 5000000
  maxGuessAttempts : ℕ := 2
  pointsPerValidation : ℕ := 10
  /-- `matchmaking_queue_ttl_seconds`, in microseconds. -/
  matchmakingQueueTtl : Time := 30000000
  preferredCommonLang : Text := ['e', 'n']
  deriving DecidableEq, Repr

/-- What the probing programs report for an upload; `none` when they fail or print nothing that
parses. -/
structure Probes where
  /-- `ffprobe -show_entries format=duration` -/
  duration : Bytes → Option ℚ
  /-- `ffmpeg -af volumedetect` -/
  meanVolume : Bytes → Option ℚ

/-- The playful copy a rejected upload is answered with. -/
inductive ReRecordReason
  | tooShort
  | tooLong
  | tooQuiet
  | tooLarge
  | badAudio
  deriving DecidableEq, Repr

/-- `AudioCheckResult` -/
structure AudioCheckResult where
  accepted : Bool
  durationS : Option ℚ := none
  meanVolumeDb : Option ℚ := none
  reason : Option ReRecordReason := none
  deriving DecidableEq, Repr

/-- `check_audio_file`: duration first, then silence.  `duration` and `meanVolume` are what the
two subprocesses gave, `none` when they failed or timed out. -/
def checkAudioFile (cfg : GameFeatureConfig) (duration meanVolume : Option ℚ) :
    AudioCheckResult :=
  match duration with
  | none => { accepted := false, reason := some .badAudio }
  | some s =>
    if s < cfg.audioMinDurationS then
      { accepted := false, durationS := some s, reason := some .tooShort }
    else if cfg.audioMaxDurationS < s then
      { accepted := false, durationS := some s, reason := some .tooLong }
    else match meanVolume with
      | none => { accepted := false, durationS := some s, reason := some .badAudio }
      | some db =>
        if db < cfg.silenceMeanVolumeDb then
          { accepted := false, durationS := some s, meanVolumeDb := some db,
            reason := some .tooQuiet }
        else { accepted := true, durationS := some s, meanVolumeDb := some db }

/-- An accepted clip has a measured duration within the limits, and is loud enough. -/
theorem checkAudioFile_accepted {cfg : GameFeatureConfig} {duration meanVolume : Option ℚ}
    (h : (checkAudioFile cfg duration meanVolume).accepted = true) :
    ∃ s db, duration = some s ∧ meanVolume = some db ∧ cfg.audioMinDurationS ≤ s ∧
      s ≤ cfg.audioMaxDurationS ∧ cfg.silenceMeanVolumeDb ≤ db ∧
      (checkAudioFile cfg duration meanVolume).durationS = some s := by
  cases duration with
  | none => cases h
  | some s =>
    simp only [checkAudioFile] at h ⊢
    split at h
    · cases h
    · rename_i hmin
      split at h
      · cases h
      · rename_i hmax
        cases meanVolume with
        | none => cases h
        | some db =>
          dsimp only at h
          split at h
          · cases h
          · rename_i hdb
            refine ⟨s, db, rfl, rfl, not_lt.mp hmin, not_lt.mp hmax, not_lt.mp hdb, ?_⟩
            rw [if_neg hmin, if_neg hmax]
            exact congrArg AudioCheckResult.durationS (if_neg hdb)

end Neva

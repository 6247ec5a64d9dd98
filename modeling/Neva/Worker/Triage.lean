import Neva.Game.Store
import Neva.Worker.Fingerprint

/-!
# Storing a triage result

`GauntletRepository.persist_triage` of `worker/repository.py`, with the registration of the
fingerprint it does in the same transaction.

Whether a recording is a duplicate is decided in two places.  The table
`speaker_audio_fingerprints` says which turn owns a hash; the scan compares the fingerprint with
the quality stored for every *other* turn of the speaker.  A turn is kept — `duplicate = false` —
when it owns its hash and the scan comes back empty.
-/

set_option autoImplicit false

namespace Neva

/-- The fields of `GauntletLimits` the worker code below reads. -/
structure GauntletLimits where
  /-- `retry_base_seconds`, in microseconds. -/
  retryBase : Time := 2000000
  maxTries : ℕ := 3
  /-- `stale_claim_seconds`, in microseconds. -/
  staleClaim : Time := 120000000
  fingerprintMaxShiftFrames : ℤ := 6
  fingerprintNearDistanceRatio : ℚ := 12 / 100
  deriving DecidableEq, Repr

/-- The turn with the result of its triage. -/
def TurnRecord.triaged (t : TurnRecord) (flacPath : AudioPath) (quality : Quality) : TurnRecord :=
  { t with audioFlacPath := some flacPath, quality := some quality }

@[simp] theorem TurnRecord.triaged_id (t : TurnRecord) (flacPath : AudioPath) (quality : Quality) :
    (t.triaged flacPath quality).id = t.id := rfl

namespace Repository

variable (limits : GauntletLimits)

/-- `get_turn_context`: the turn, when its speaker, card and pair are there to be joined. -/
def getTurnContext (db : Db) (turnId : Uuid) : Option TurnRecord :=
  (db.findTurn turnId).filter fun t ↦ (db.findPlayer t.speakerId).isSome &&
    db.cards.any (fun c ↦ c.id == t.cardId) && (db.findPair t.pairId).isSome

/-- Two fingerprints match under the configured shift and ratio. -/
def matching (left right : AcousticFingerprint) : Bool :=
  fingerprintsMatch left right limits.fingerprintMaxShiftFrames
    limits.fingerprintNearDistanceRatio

/-- `SELECT turn_id … WHERE speaker_id = $1 AND fingerprint = $2` -/
def fingerprintOwner (db : Db) (speakerId : Uuid) (hash : Text) : Option Uuid :=
  (db.fingerprints.find? fun r ↦ r.speakerId == speakerId && r.fingerprint == hash).map
    FingerprintRow.turnId

/-- `_register_fingerprint_table_on`: `INSERT … ON CONFLICT DO NOTHING` against both unique keys,
then a look at who owns the hash. -/
def registerFingerprintTable (db : Db) (speakerId : Uuid) (fp : AcousticFingerprint)
    (turnId : Uuid) : Bool × Db :=
  if db.fingerprints.any fun r ↦
      (r.speakerId == speakerId && r.fingerprint == fp.contentHash) || r.turnId == turnId
  then (fingerprintOwner db speakerId fp.contentHash == some turnId, db)
  else (true, { db with
    fingerprints := db.fingerprints ++ [⟨speakerId, fp.contentHash, turnId⟩] })

/-- The loop of `_scan_fingerprint_unowned` over the rows it fetched. -/
def scanRows (fp : AcousticFingerprint) : List TurnRecord → Except Failure Bool
  | [] => .ok true
  | t :: rest =>
    match t.quality with
    | none => scanRows fp rest
    | some quality =>
      if quality.dedupHash = fp.contentHash then .ok false
      else match quality.acousticEnvelope with
        | none => scanRows fp rest
        | some encoded =>
          if encoded = [] then scanRows fp rest
          else match decodeEnvelope encoded with
            | none => .error (.valueError "invalid literal for int() with base 16")
            | some envelope =>
              if matching limits ⟨quality.dedupHash, envelope, fp.frameMs⟩ fp then .ok false
              else scanRows fp rest

/-- `_scan_fingerprint_unowned`: no other turn of the speaker has a stored fingerprint that
matches. -/
def scanFingerprintUnowned (db : Db) (speakerId : Uuid) (fp : AcousticFingerprint)
    (excludeTurnId : Uuid) : Except Failure Bool :=
  scanRows limits fp (db.turns.filter fun t ↦
    t.speakerId == speakerId && t.id != excludeTurnId && t.quality.isSome)

/-- `_register_speaker_fingerprint_on_connection`.  The speaker's advisory lock makes it one step
of the enclosing transaction. -/
def registerSpeakerFingerprint (db : Db) (speakerId : Uuid) (fp : AcousticFingerprint)
    (turnId : Uuid) : Except Failure (Bool × Db) :=
  let (exactOwned, db) := registerFingerprintTable db speakerId fp turnId
  if !exactOwned then .ok (false, db)
  else match scanFingerprintUnowned limits db speakerId fp turnId with
    | .error e => .error e
    | .ok true => .ok (true, db)
    | .ok false => .ok (false, { db with
        fingerprints := db.fingerprints.filter fun r ↦
          !(r.speakerId == speakerId && r.fingerprint == fp.contentHash && r.turnId == turnId) })

/-- The `UPDATE turns` and the conditional `INSERT INTO jobs` that end `persist_triage`. -/
def storeQuality (db : Db) (d : Draw) (turnId : Uuid) (flacPath : AudioPath)
    (quality : Quality) : Db :=
  let db := db.updateTurn turnId (·.triaged flacPath quality)
  match db.findTurn turnId with
  | none => db
  | some t =>
    if t.status = .scored ∧ t.quality.isSome then db.insertJob .package turnId d.uuid d.now
    else db

/-- `persist_triage`.  With a speaker and a fingerprint, ownership is settled first and decides the
`duplicate` flag that is stored. -/
def persistTriage (db : Db) (d : Draw) (turnId : Uuid) (flacPath : AudioPath)
    (quality : Quality) : Option (Uuid × AcousticFingerprint) → Except Failure Quality × Db
  | none => (.ok quality, storeQuality db d turnId flacPath quality)
  | some (speakerId, fp) =>
    if (db.findTurn turnId).isNone then
      (.error (.integrityError "speaker_audio_fingerprints_turn_id_fkey"), db)
    else match registerSpeakerFingerprint limits db speakerId fp turnId with
      | .error e => (.error e, db)
      | .ok (owned, db) =>
        let persisted := { quality with
          duplicate := !owned
          dedupHash := fp.contentHash
          acousticEnvelope := some (encodeEnvelope fp.envelope) }
        (.ok persisted, storeQuality db d turnId flacPath persisted)

end Repository

end Neva

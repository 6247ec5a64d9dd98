import Neva.Calls.Alone
import Neva.Calls.Ensures
import Neva.Game.Nicknames
import Neva.Tables

/-!
# Sessions

Who joins is given a token, and shows it with every request.  `GameService.join` and
`resolve_player` of `app/game/service.py`, `create_player` of `app/game/pg_store.py`,
`app/game/tokens.py` and `get_current_player` of `app/api/deps.py`: a player's row has the hash of
the token only, a name that is taken makes the insertion fail, and the next candidate is tried then.
Any number of joins and of other requests may be under way, an insertion and a look-up are one
statement each, and any of them may fail or be cut off.

Tokens are drawn at random and are not drawn twice.  Then a token that was returned stands for one
player, with the languages and a name of the one who joined.  A digest of fixed length has
collisions, and so all that keeps others out is that nobody comes upon one: whoever is let in has
shown a text with the digest of a token that a join has drawn, and while no text that is shown
collides with a token (`Apart`), that is the token (`identified_of_reachable`).
-/

set_option autoImplicit false

namespace Neva.Sessions

open Calls Calls.Prog

/-! ## The service -/

/-- What the entrance is set up with. -/
structure Entrance where
  lower : Lowercase
  /-- `hash_session_token` -/
  hash : Text → Text
  /-- `nickname_alloc_max_attempts` -/
  maxAttempts : ℕ

/-- A `players` row. -/
structure Account where
  player : PlayerRecord
  tokenHash : Text
  deriving DecidableEq, Repr

/-- The table, and the tokens that have been drawn. -/
structure Registry where
  rows : List Account
  issued : List Text

/-- The unique indexes of the table. -/
inductive Constraint
  | nicknameLower
  | sessionTokenHash
  deriving DecidableEq, Repr

inductive AccountError
  /-- `GameError(status_code, detail)` -/
  | gameError (statusCode : ℕ) (detail : String)
  /-- `HTTPException(status_code, detail)` -/
  | httpException (statusCode : ℕ) (detail : String)
  | uniqueViolation (constraint : Constraint)
  | checkViolation
  | runtimeError (message : String)
  deriving DecidableEq, Repr

inductive AccountOp : Type → Type
  /-- `issue_session_token` -/
  | issueToken : AccountOp Text
  /-- `INSERT INTO players` -/
  | insertPlayer (nickname nativeLang : Text) (commonLangs : List Text) (tokenHash : Text) :
      AccountOp PlayerRecord
  /-- `get_player_by_token_hash` -/
  | playerByTokenHash (tokenHash : Text) : AccountOp (Option PlayerRecord)

abbrev AccountProg (α : Type) := Prog AccountOp AccountError α

/-- What is answered. -/
inductive Reply
  | token (sessionToken : Text)
  | player (p : PlayerRecord)
  deriving DecidableEq, Repr

/-- What arrives: somebody joins, or shows an `Authorization` header. -/
inductive Request
  | join (req : JoinRequest)
  | authenticate (authorization : Option Text)
  deriving DecidableEq

/-- `raise_game_error` -/
def raiseGameError : AccountError → AccountError
  | .gameError statusCode detail => .httpException statusCode detail
  | e => e

/-- The loop of `create_player`, over the attempts that are left. -/
def createPlayer (nickname nativeLang : Text) (commonLangs : List Text) (tokenHash : Text) :
    List ℕ → AccountProg PlayerRecord
  | [] => raise (.runtimeError "unable to allocate a unique nickname")
  | attempt :: rest =>
    (perform (.insertPlayer (allocateNicknameCandidate nickname attempt) nativeLang commonLangs
      tokenHash)).tryCatch fun e ↦
        if e = .uniqueViolation .nicknameLower then
          createPlayer nickname nativeLang commonLangs tokenHash rest
        else raise e

variable (E : Entrance)

/-- `GameService.join`, and the endpoint around it. -/
def join (req : JoinRequest) : AccountProg Reply :=
  let cleaned := (req.commonLangs.filter fun lang ↦ lang ≠ [] ∧ strip lang ≠ []).map strip
  if cleaned = [] then
    raise (raiseGameError (.gameError 400 "common_langs must contain at least one language"))
  else do
    let token ← perform .issueToken
    let _ ← createPlayer (strip req.nickname) (strip req.nativeLang) cleaned (E.hash token)
      (List.range E.maxAttempts)
    return .token token

/-- `GameService.resolve_player` -/
def resolvePlayer (token : Text) : AccountProg PlayerRecord :=
  if token = [] then raise (.gameError 401 "missing bearer token")
  else do
    let player ← perform (.playerByTokenHash (E.hash token))
    match player with
    | none => raise (.gameError 401 "invalid session token")
    | some player => return player

/-- The token in an `Authorization` header, if it has the scheme. -/
def bearerToken : Option Text → Option Text
  | none => none
  | some header =>
    if (header.take 7).map Char.toLower = "bearer ".toList then
      some (strip ((header.dropWhile (· ≠ ' ')).drop 1))
    else none

/-- `get_current_player` -/
def getCurrentPlayer (authorization : Option Text) : AccountProg Reply :=
  match bearerToken authorization with
  | none => raise (.httpException 401 "Authorization Bearer token required")
  | some token => do
    let player ← (resolvePlayer E token).tryCatch fun e ↦ raise (raiseGameError e)
    return .player player

/-! ## The system -/

/-- The characters of `secrets.token_urlsafe`. -/
def urlSafe (c : Char) : Bool := c.isAlphanum || c == '-' || c == '_'

/-- `secrets.token_urlsafe(32)` -/
def isToken (t : Text) : Bool := t.length == 43 && t.all urlSafe

/-- What a call reads from outside the table. -/
structure Chance where
  token : Text
  /-- `gen_random_uuid()` -/
  uuid : Uuid
  deriving DecidableEq, Repr

/-- What a call answers and leaves behind. -/
def Registry.exec (d : Chance) (s : Registry) {β : Type} :
    AccountOp β → Except AccountError β × Registry
  | .issueToken => (.ok d.token, { s with issued := d.token :: s.issued })
  | .insertPlayer nickname nativeLang commonLangs tokenHash =>
    if s.rows.any fun a ↦ a.tokenHash == tokenHash then
      (.error (.uniqueViolation .sessionTokenHash), s)
    else if s.rows.any fun a ↦ E.lower.lower a.player.nickname == E.lower.lower nickname then
      (.error (.uniqueViolation .nicknameLower), s)
    else if 1 ≤ nickname.length ∧ nickname.length ≤ 32 then
      let p : PlayerRecord := ⟨d.uuid, nickname, nativeLang, commonLangs⟩
      (.ok p, { s with rows := s.rows ++ [⟨p, tokenHash⟩] })
    else (.error .checkViolation, s)
  | .playerByTokenHash tokenHash =>
    (.ok ((s.rows.find? fun a ↦ a.tokenHash == tokenHash).map Account.player), s)

/-- Any number of requests at the entrance.  Tokens and identifiers are not drawn twice. -/
def entrance : System AccountOp AccountError Chance Registry Request Reply where
  exec d op s := s.exec E d op
  admits d s := isToken d.token && decide (d.token ∉ s.issued) &&
    decide (d.uuid ∉ s.rows.map fun a ↦ a.player.id)
  body
    | .join req => join E req
    | .authenticate authorization => getCurrentPlayer E authorization
  init s := s.rows = [] ∧ s.issued = []

/-- A run of the entrance. -/
abbrev Lobby := World AccountOp AccountError Request Registry

/-- The token that a call has drawn. -/
def tokenIssued : Past AccountOp AccountError → Option Text
  | ⟨.issueToken, .ok token⟩ => some token
  | _ => none

/-- Program `i` has drawn the token. -/
def Drew (i : ℕ) (token : Text) (w : Lobby) : Prop :=
  ∃ x ∈ w.trace, x.1 = i ∧ tokenIssued x.2 = some token

/-- The token that comes with a request. -/
def Request.shown : Request → Option Text
  | .join _ => none
  | .authenticate authorization => bearerToken authorization

/-- No text that was shown has the hash of a token that was drawn, but the token. -/
def Apart (w : Lobby) : Prop :=
  ∀ r ∈ w.requests, ∀ x ∈ w.trace, ∀ t ∈ r.shown, ∀ t' ∈ tokenIssued x.2,
    E.hash t = E.hash t' → t = t'

/-- The row is what a join with this token inserts. -/
def Account.For (req : JoinRequest) (token : Text) (a : Account) : Prop :=
  a.tokenHash = E.hash token ∧ ∃ attempt < E.maxAttempts, Neva.join req a.player.id
    (allocateNicknameCandidate (strip req.nickname) attempt) = .ok a.player

/-- Every row was inserted by a join with a token of its own, and names, hashes and identifiers are
unique. -/
structure Sound (w : Lobby) : Prop where
  issued : ∀ i t, Drew i t w → t ∈ w.state.issued ∧ isToken t = true
  alone : ∀ i j t, Drew i t w → Drew j t w → i = j
  rows : ∀ a ∈ w.state.rows, ∃ (i : ℕ) (req : JoinRequest) (t : Text), Drew i t w ∧
    w.requests[i]? = some (.join req) ∧ a.For E req t
  names : (w.state.rows.map fun a ↦ E.lower.lower a.player.nickname).Nodup
  hashes : Tables.Unique Account.tokenHash w.state.rows
  ids : (w.state.rows.map fun a ↦ a.player.id).Nodup

/-- Who inserts a row has drawn the token, and inserts what was asked for. -/
def entitled (i : ℕ) (w : Lobby) : {β : Type} → AccountOp β → Prop
  | _, .insertPlayer nickname nativeLang commonLangs tokenHash =>
    ∃ (req : JoinRequest) (t : Text) (attempt : ℕ), w.requests[i]? = some (.join req) ∧
      Drew i t w ∧ tokenHash = E.hash t ∧ attempt < E.maxAttempts ∧
      ∀ id, Neva.join req id (allocateNicknameCandidate (strip req.nickname) attempt) =
        .ok ⟨id, nickname, nativeLang, commonLangs⟩
  | _, _ => True

/-- What a request that was answered has brought about. -/
def Answered (i : ℕ) (w : Lobby) : Request → Reply → Prop
  | .join req, .token t => Drew i t w ∧ ∃ a ∈ w.state.rows, a.For E req t
  | .authenticate authorization, .player p => ∃ t, bearerToken authorization = some t ∧
      ∃ a ∈ w.state.rows, a.tokenHash = E.hash t ∧ a.player = p
  | _, _ => False

/-- The contract of the entrance. -/
def registering : Contract AccountOp AccountError Request Registry Reply where
  known _ := True
  inv := Sound E
  pre i op w := entitled E i w op
  post q i r w := ∀ reply, r = .ok reply → Answered E i w q reply
  gone _ _ := True

/-- What has happened stays, and the table only grows. -/
structure Grows (w w' : Lobby) : Prop where
  trace : ∀ x ∈ w.trace, x ∈ w'.trace
  requests : ∀ (i : ℕ) r, w.requests[i]? = some r → w'.requests[i]? = some r
  rows : ∀ a ∈ w.state.rows, a ∈ w'.state.rows

/-- What is true once is true ever after. -/
def Lasting (P : Lobby → Prop) : Prop := ∀ w w' : Lobby, Grows w w' → P w → P w'

section

variable {E} {w w' : Lobby} {i j : ℕ} {t : Text} {d : Chance} {β : Type} {op : AccountOp β}

/-! ### The calls -/

theorem Drew.grows (h : Drew i t w) (hgrows : Grows w w') : Drew i t w' := by
  obtain ⟨x, hx, h⟩ := h
  exact ⟨x, hgrows.trace x hx, h⟩

theorem drew_after : Drew i t ((entrance E).after j op d w) ↔
    (j = i ∧ tokenIssued ⟨op, ((entrance E).exec d op w.state).1⟩ = some t) ∨ Drew i t w := by
  rw [Drew, System.after_trace]
  simp only [List.mem_cons, or_and_right, exists_or, exists_eq_left]
  rfl

/-- A call that draws no token and inserts no row. -/
theorem Sound.after_same (h : Sound E w)
    (hnone : tokenIssued ⟨op, ((entrance E).exec d op w.state).1⟩ = none)
    (hsame : ((entrance E).exec d op w.state).2 = w.state) :
    Sound E ((entrance E).after j op d w) := by
  have hdrew : ∀ i t, Drew i t ((entrance E).after j op d w) ↔ Drew i t w := fun i t ↦ by
    simp [drew_after, hnone]
  refine ⟨fun i t ht ↦ ?_, fun i k t hi hk ↦ ?_, ?_, ?_, ?_, ?_⟩
  · rw [System.after_state, hsame]
    exact h.issued i t ((hdrew i t).mp ht)
  · exact h.alone i k t ((hdrew i t).mp hi) ((hdrew k t).mp hk)
  · rw [System.after_state, hsame]
    intro a ha
    obtain ⟨i, req, t, ht, hreq⟩ := h.rows a ha
    exact ⟨i, req, t, (hdrew i t).mpr ht, hreq⟩
  all_goals rw [System.after_state, hsame]
  · exact h.names
  · exact h.hashes
  · exact h.ids

theorem grows_after (hrows : ∀ a ∈ w.state.rows, a ∈ ((entrance E).exec d op w.state).2.rows) :
    Grows w ((entrance E).after j op d w) :=
  ⟨fun _ hx ↦ List.mem_cons_of_mem _ hx, fun _ _ h ↦ h, hrows⟩

/-- An insertion either fails, or adds the row. -/
theorem exec_insertPlayer (s : Registry) (nickname nativeLang : Text) (commonLangs : List Text)
    (tokenHash : Text) :
    (∃ e, s.exec E d (.insertPlayer nickname nativeLang commonLangs tokenHash) = (.error e, s)) ∨
    s.exec E d (.insertPlayer nickname nativeLang commonLangs tokenHash) =
      (.ok ⟨d.uuid, nickname, nativeLang, commonLangs⟩,
        { s with rows := s.rows ++ [⟨⟨d.uuid, nickname, nativeLang, commonLangs⟩, tokenHash⟩] }) ∧
      tokenHash ∉ s.rows.map Account.tokenHash ∧
      E.lower.lower nickname ∉ s.rows.map fun a ↦ E.lower.lower a.player.nickname := by
  rw [Registry.exec]
  split_ifs with hhash hname hcheck
  · exact .inl ⟨_, rfl⟩
  · exact .inl ⟨_, rfl⟩
  · refine .inr ⟨rfl, fun hmem ↦ hhash ?_, fun hmem ↦ hname ?_⟩
    · obtain ⟨a, ha, heq⟩ := List.mem_map.mp hmem
      exact List.any_eq_true.mpr ⟨a, ha, beq_iff_eq.mpr heq⟩
    · obtain ⟨a, ha, heq⟩ := List.mem_map.mp hmem
      exact List.any_eq_true.mpr ⟨a, ha, beq_iff_eq.mpr heq⟩
  · exact .inl ⟨_, rfl⟩

theorem of_admits {s : Registry} (h : (entrance E).admits d s = true) :
    isToken d.token = true ∧ d.token ∉ s.issued ∧ d.uuid ∉ s.rows.map fun a ↦ a.player.id := by
  simpa [entrance, and_assoc] using h

/-- **A call keeps the invariant**, and what has happened. -/
theorem Sound.call (h : Sound E w) (hop : entitled E i w op)
    (hd : (entrance E).admits d w.state = true) :
    Sound E ((entrance E).after i op d w) ∧ Grows w ((entrance E).after i op d w) := by
  obtain ⟨htoken, hfresh, hid⟩ := of_admits hd
  cases op with
  | playerByTokenHash tokenHash =>
    exact ⟨h.after_same rfl rfl, grows_after fun _ ha ↦ ha⟩
  | issueToken =>
    have hgrows : Grows w ((entrance E).after i .issueToken d w) := grows_after fun _ ha ↦ ha
    have hdrew : ∀ k t, Drew k t ((entrance E).after i .issueToken d w) ↔
        (i = k ∧ d.token = t) ∨ Drew k t w := fun k t ↦ by
      rw [drew_after]
      simp [entrance, Registry.exec, tokenIssued]
    refine ⟨⟨fun k t ht ↦ ?_, fun k m t hk hm ↦ ?_, fun a ha ↦ ?_, h.names, h.hashes, h.ids⟩,
      hgrows⟩
    · rcases (hdrew k t).mp ht with ⟨-, rfl⟩ | ht
      · exact ⟨List.mem_cons_self, htoken⟩
      · exact ⟨List.mem_cons_of_mem _ (h.issued k t ht).1, (h.issued k t ht).2⟩
    · rcases (hdrew k t).mp hk with ⟨rfl, rfl⟩ | hk <;> rcases (hdrew m _).mp hm with ⟨rfl, ht⟩ | hm
      · rfl
      · exact absurd (h.issued m _ hm).1 hfresh
      · exact absurd (ht ▸ (h.issued k t hk).1) hfresh
      · exact h.alone k m t hk hm
    · obtain ⟨k, req, t, ht, hreq⟩ := h.rows a ha
      exact ⟨k, req, t, ht.grows hgrows, hreq⟩
  | insertPlayer nickname nativeLang commonLangs tokenHash =>
    rcases exec_insertPlayer (E := E) (d := d) w.state nickname nativeLang commonLangs tokenHash
      with ⟨e, he⟩ | ⟨hok, hhash, hname⟩
    · have hsame : ((entrance E).exec d (.insertPlayer nickname nativeLang commonLangs tokenHash)
          w.state).2 = w.state := congrArg Prod.snd he
      exact ⟨h.after_same rfl hsame, grows_after fun a ha ↦ by rw [hsame]; exact ha⟩
    · obtain ⟨req, t, attempt, hreq, ht, rfl, hattempt, hjoin⟩ := hop
      have hstate : ((entrance E).exec d (.insertPlayer nickname nativeLang commonLangs (E.hash t))
          w.state).2 = _ := congrArg Prod.snd hok
      have hgrows : Grows w ((entrance E).after i
          (.insertPlayer nickname nativeLang commonLangs (E.hash t)) d w) :=
        grows_after fun a ha ↦ by
          rw [hstate]
          exact List.mem_append_left _ ha
      have hdrew : ∀ k t', Drew k t' ((entrance E).after i
          (.insertPlayer nickname nativeLang commonLangs (E.hash t)) d w) ↔ Drew k t' w :=
        fun k t' ↦ by simp [drew_after, tokenIssued]
      refine ⟨⟨fun k t' ht' ↦ ?_, fun k m t' hk hm ↦ ?_, fun a ha ↦ ?_, ?_, ?_, ?_⟩, hgrows⟩
      · rw [System.after_state, hstate]
        exact h.issued k t' ((hdrew k t').mp ht')
      · exact h.alone k m t' ((hdrew k t').mp hk) ((hdrew m t').mp hm)
      · rw [System.after_state, hstate] at ha
        rcases List.mem_append.mp ha with ha | ha
        · obtain ⟨k, req', t', ht', hreq'⟩ := h.rows a ha
          exact ⟨k, req', t', ht'.grows hgrows, hreq'⟩
        · obtain rfl := List.mem_singleton.mp ha
          exact ⟨i, req, t, ht.grows hgrows, hreq, rfl, attempt, hattempt, hjoin d.uuid⟩
      all_goals rw [System.after_state, hstate]
      · rw [List.map_append, List.map_singleton, List.nodup_append_comm]
        exact List.nodup_cons.mpr ⟨hname, h.names⟩
      · exact h.hashes.append hhash
      · rw [List.map_append, List.map_singleton, List.nodup_append_comm]
        exact List.nodup_cons.mpr ⟨hid, h.ids⟩

end

/-! ### The programs -/

/-- Program `i` knows `P`, and makes the calls of the part as it should. -/
abbrev Keeps {β : Type} (i : ℕ) (Q : Except AccountError β → Lobby → Prop) (p : AccountProg β)
    (P : Lobby → Prop) : Prop :=
  (registering E).Ensures (entrance E) Terms.any i Q p P

/-- What holds of a part that returns, when nothing is asked of one that raises. -/
def WhenOk {β : Type} (P : β → Lobby → Prop) (r : Except AccountError β) (w : Lobby) : Prop :=
  ∀ b, r = .ok b → P b w

/-- The join that program `i` serves, and its token. -/
def Joining (i : ℕ) (req : JoinRequest) (t : Text) (w : Lobby) : Prop :=
  w.requests[i]? = some (.join req) ∧ Drew i t w

section

variable {E} {i : ℕ} {req : JoinRequest} {t : Text} {β : Type}

theorem stable {P : Lobby → Prop} (hP : Lasting P) :
    (registering E).Stable (entrance E) Terms.any i P where
  spawned w r hw := hP w _ ⟨fun _ hx ↦ hx, fun _ _ h ↦ World.getElem?_spawned h r, fun _ h ↦ h⟩ hw
  called _ _ _ _ _ w hh hop _ hd hw := hP w _ (hh.2.call hop hd).2 hw

theorem Lasting.and {P P' : Lobby → Prop} (h : Lasting P) (h' : Lasting P') :
    Lasting fun w ↦ P w ∧ P' w := fun w w' hgrows hw ↦ ⟨h w w' hgrows hw.1, h' w w' hgrows hw.2⟩

theorem lasting_whenOk {P : β → Lobby → Prop} (hP : ∀ b, Lasting (P b))
    (r : Except AccountError β) : Lasting (WhenOk P r) :=
  fun w w' hgrows h b hb ↦ hP b w w' hgrows (h b hb)

theorem lasting_drew (t : Text) : Lasting (Drew i t) := fun _ _ hgrows h ↦ h.grows hgrows

theorem lasting_serves (r : Request) : Lasting fun w ↦ w.requests[i]? = some r :=
  fun _ _ hgrows h ↦ hgrows.requests i _ h

theorem lasting_joining : Lasting (Joining i req t) := (lasting_serves _).and (lasting_drew t)

theorem lasting_row (p : Account → Prop) : Lasting fun w ↦ ∃ a ∈ w.state.rows, p a := by
  rintro w w' hgrows ⟨a, ha, hp⟩
  exact ⟨a, hgrows.rows a ha, hp⟩

/-- A call, and what its answer tells the program. -/
theorem keeps_perform {op : AccountOp β} {P : Lobby → Prop} {New : β → Lobby → Prop}
    (hP : Lasting P) (hnew : ∀ b, Lasting (New b)) (hpre : ∀ w, P w → entitled E i w op)
    (hnext : ∀ w d b, Sound E w → P w → ((entrance E).exec d op w.state).1 = .ok b →
      New b ((entrance E).after i op d w)) :
    Keeps E i (fun r w ↦ P w ∧ WhenOk New r w) (perform op) P := by
  refine Contract.ensures_perform (stable hP)
    (fun r ↦ stable (hP.and (lasting_whenOk hnew r))) (fun w _ hw ↦ hpre w hw)
    (fun w _ hw _ ↦ ⟨trivial, fun e ↦ ⟨hw, fun _ hb ↦ by cases hb⟩⟩) fun w d hh hw _ hd ↦ ?_
  exact ⟨hP w _ (hh.2.call (hpre w hw) hd).2 hw, fun b hb ↦ hnext w d b hh.2 hw hb⟩

/-- The loop of `create_player` ends with a row for the join, or raises. -/
theorem keeps_createPlayer {nickname nativeLang : Text} {commonLangs : List Text}
    {attempts : List ℕ} (hattempts : ∀ attempt ∈ attempts, attempt < E.maxAttempts ∧
      ∀ id, Neva.join req id (allocateNicknameCandidate (strip req.nickname) attempt) =
        .ok ⟨id, allocateNicknameCandidate nickname attempt, nativeLang, commonLangs⟩) :
    Keeps E i (fun r w ↦ Joining i req t w ∧
        WhenOk (fun _ w ↦ ∃ a ∈ w.state.rows, a.For E req t) r w)
      (createPlayer nickname nativeLang commonLangs (E.hash t) attempts) (Joining i req t) := by
  induction attempts with
  | nil =>
    exact Contract.ensures_raise (stable lasting_joining) fun _ _ hw ↦
      ⟨hw, fun _ hb ↦ by cases hb⟩
  | cons attempt rest ih =>
    obtain ⟨hattempt, hjoin⟩ := hattempts attempt List.mem_cons_self
    have hinsert : Keeps E i (fun r w ↦ Joining i req t w ∧
        WhenOk (fun _ w ↦ ∃ a ∈ w.state.rows, a.For E req t) r w)
        (perform (.insertPlayer (allocateNicknameCandidate nickname attempt) nativeLang commonLangs
          (E.hash t))) (Joining i req t) := by
      refine keeps_perform lasting_joining (fun _ ↦ lasting_row _)
        (fun w hw ↦ ⟨req, t, attempt, hw.1, hw.2, rfl, hattempt, hjoin⟩) fun w d p _ _ hp ↦ ?_
      rcases exec_insertPlayer (E := E) (d := d) w.state
        (allocateNicknameCandidate nickname attempt) nativeLang commonLangs (E.hash t) with
        ⟨e, he⟩ | ⟨hok, -⟩
      · exact absurd ((congrArg Prod.fst he).symm.trans hp) (by simp)
      · refine ⟨⟨⟨d.uuid, allocateNicknameCandidate nickname attempt, nativeLang, commonLangs⟩,
          E.hash t⟩, ?_, rfl, attempt, hattempt, hjoin d.uuid⟩
        show _ ∈ (w.state.exec E d (.insertPlayer (allocateNicknameCandidate nickname attempt)
          nativeLang commonLangs (E.hash t))).2.rows
        rw [hok]
        exact List.mem_append_right _ List.mem_cons_self
    have hlasting : ∀ r : Except AccountError PlayerRecord, Lasting fun w ↦ Joining i req t w ∧
        WhenOk (fun _ w ↦ ∃ a ∈ w.state.rows, a.For E req t) r w := fun r ↦
      lasting_joining.and (lasting_whenOk (fun _ ↦ lasting_row _) r)
    refine hinsert.tryCatch (fun e ↦ ?_) fun _ _ _ hw ↦ hw
    split_ifs
    · exact (ih fun a ha ↦ hattempts a (List.mem_cons_of_mem _ ha)).pre (stable (hlasting _))
        fun _ _ hw ↦ hw.1
    · exact Contract.ensures_raise (stable (hlasting _)) fun _ _ hw ↦ ⟨hw.1, fun _ hb ↦ by cases hb⟩

theorem keeps_join (req : JoinRequest) : Keeps E i
    (fun r w ↦ ∀ reply, r = .ok reply → Answered E i w (.join req) reply) (join E req)
    (fun w ↦ w.requests[i]? = some (.join req)) := by
  have hserves := lasting_serves (i := i) (.join req)
  rw [join]
  split_ifs with hcleaned
  · exact Contract.ensures_raise (stable hserves) fun _ _ _ _ h ↦ by cases h
  · have hissue : Keeps E i (fun r w ↦ w.requests[i]? = some (.join req) ∧
        WhenOk (fun t ↦ Drew i t) r w) (perform .issueToken)
        (fun w ↦ w.requests[i]? = some (.join req)) := by
      refine keeps_perform hserves lasting_drew (fun _ _ ↦ trivial)
        fun w d t _ _ ht ↦ ?_
      obtain rfl : d.token = t := Except.ok.inj ht
      exact drew_after.mpr (.inl ⟨rfl, rfl⟩)
    refine hissue.bind (fun t ↦ ?_) fun _ _ _ _ _ h ↦ by cases h
    have hcreate : Keeps E i (fun r w ↦ Joining i req t w ∧
        WhenOk (fun _ w ↦ ∃ a ∈ w.state.rows, a.For E req t) r w)
        (createPlayer (strip req.nickname) (strip req.nativeLang)
          ((req.commonLangs.filter fun lang ↦ lang ≠ [] ∧ strip lang ≠ []).map strip) (E.hash t)
          (List.range E.maxAttempts)) (Joining i req t) :=
      keeps_createPlayer fun attempt hattempt ↦
        ⟨List.mem_range.mp hattempt, fun id ↦ by rw [Neva.join]; exact if_neg hcleaned⟩
    refine (hcreate.pre (stable (hserves.and (lasting_whenOk lasting_drew _))) fun _ _ hw ↦
      ⟨hw.1, hw.2 t rfl⟩).bind (fun p ↦ ?_) fun _ _ _ _ _ h ↦ by cases h
    refine Contract.ensures_pure (stable (lasting_joining.and
      (lasting_whenOk (fun _ ↦ lasting_row _) _))) fun w _ hw reply h ↦ ?_
    obtain rfl : Reply.token t = reply := Except.ok.inj h
    exact ⟨hw.1.2, hw.2 p rfl⟩

/-- The player is the one whose row has the hash of the token. -/
def Holder (E : Entrance) (token : Text) (p : PlayerRecord) (w : Lobby) : Prop :=
  ∃ a ∈ w.state.rows, a.tokenHash = E.hash token ∧ a.player = p

theorem lasting_holder {token : Text} (p : PlayerRecord) : Lasting (Holder E token p) :=
  lasting_row _

theorem keeps_resolvePlayer (token : Text) :
    Keeps E i (WhenOk (Holder E token)) (resolvePlayer E token) fun _ ↦ True := by
  rw [resolvePlayer]
  split_ifs
  · exact Contract.ensures_raise (.true i) fun _ _ _ _ h ↦ by cases h
  · have hfound : ∀ o : Option PlayerRecord, Lasting fun w ↦ ∀ p, o = some p → Holder E token p w :=
      fun o w w' hgrows h p hp ↦ lasting_holder p w w' hgrows (h p hp)
    have hfind : Keeps E i
        (fun r w ↦ True ∧ WhenOk (fun o w ↦ ∀ p, o = some p → Holder E token p w) r w)
        (perform (.playerByTokenHash (E.hash token))) fun _ ↦ True := by
      refine keeps_perform (fun _ _ _ _ ↦ trivial) hfound (fun _ _ ↦ trivial)
        fun w d o _ _ ho p hp ↦ ?_
      obtain rfl : (w.state.rows.find? fun a ↦ a.tokenHash == E.hash token).map Account.player =
        o := Except.ok.inj ho
      obtain ⟨a, ha, rfl⟩ := Option.map_eq_some_iff.mp hp
      have hhash := List.find?_some ha
      exact ⟨a, List.mem_of_find?_eq_some ha, beq_iff_eq.mp hhash, rfl⟩
    have hlasting := fun o : Option PlayerRecord ↦ stable (E := E) (i := i)
      (Lasting.and (fun _ _ _ _ ↦ trivial : Lasting fun _ ↦ True)
        (lasting_whenOk hfound (.ok o : Except AccountError (Option PlayerRecord))))
    refine hfind.bind (fun o ↦ ?_) fun _ _ _ _ _ h ↦ by cases h
    cases o with
    | none => exact Contract.ensures_raise (hlasting none) fun _ _ _ _ h ↦ by cases h
    | some p =>
      refine Contract.ensures_pure (hlasting (some p)) fun w _ hw p' h ↦ ?_
      obtain rfl : p = p' := Except.ok.inj h
      exact hw.2 _ rfl p rfl

theorem keeps_getCurrentPlayer (authorization : Option Text) : Keeps E i
    (fun r w ↦ ∀ reply, r = .ok reply → Answered E i w (.authenticate authorization) reply)
    (getCurrentPlayer E authorization) (fun _ ↦ True) := by
  rw [getCurrentPlayer]
  cases hbearer : bearerToken authorization with
  | none => exact Contract.ensures_raise (.true i) fun _ _ _ _ h ↦ by cases h
  | some token =>
    have hresolve := keeps_resolvePlayer (E := E) (i := i) token
    have hlasting : ∀ r, Lasting (WhenOk (Holder E token) r) := lasting_whenOk lasting_holder
    refine (hresolve.tryCatch (fun e ↦ ?_) fun _ _ _ hw ↦ hw).bind (fun p ↦ ?_)
      fun _ _ _ _ _ h ↦ by cases h
    · exact Contract.ensures_raise (stable (hlasting _)) fun _ _ _ _ h ↦ by cases h
    · refine Contract.ensures_pure (stable (hlasting _)) fun w _ hw reply h ↦ ?_
      obtain rfl : Reply.player p = reply := Except.ok.inj h
      exact ⟨token, hbearer, hw p rfl⟩

end

/-- The contract of the entrance is sound. -/
theorem sound_registering : (registering E).Sound (entrance E) Terms.any where
  spawn w r h := {
    issued := h.2.issued
    alone := h.2.alone
    rows := fun a ha ↦ by
      obtain ⟨i, req, t, ht, hreq, hfor⟩ := h.2.rows a ha
      exact ⟨i, req, t, ht, World.getElem?_spawned hreq r, hfor⟩
    names := h.2.names
    hashes := h.2.hashes
    ids := h.2.ids }
  call _ _ _ _ _ h hop _ hd := (h.2.call hop hd).1
  body w r _ _ := by
    have hserves : (w.spawned r).requests[w.requests.length]? = some r := by simp [World.spawned]
    cases r with
    | join req => exact ⟨_, hserves, (keeps_join req).safe⟩
    | authenticate authorization => exact ⟨_, trivial, (keeps_getCurrentPlayer authorization).safe⟩
  gone i := .true i

/-- The contract is kept by every run. -/
theorem good_of_reachable {c : Config AccountOp AccountError Request Registry Reply}
    (h : (entrance E).Reachable c) : (registering E).Good (entrance E) Terms.any c := by
  refine (sound_registering E).good (fun s hs ↦ ?_) (fun _ _ ↦ trivial) h
  obtain ⟨hrows, hissued⟩ := hs
  refine ⟨fun i t ht ↦ ?_, fun i j t ht _ ↦ ?_, fun a ha ↦ ?_, ?_, ?_, ?_⟩
  · obtain ⟨x, hx, -⟩ := ht
    exact absurd hx List.not_mem_nil
  · obtain ⟨x, hx, -⟩ := ht
    exact absurd hx List.not_mem_nil
  · rw [hrows] at ha
    exact absurd ha List.not_mem_nil
  all_goals simp [hrows, Tables.Unique]

/-! ## Showing the token -/

theorem isSpace_of_urlSafe {c : Char} (h : urlSafe c = true) : isSpace c = false := by
  have hn : c.toNat = c.val.toNat := rfl
  simp [urlSafe, Char.isAlphanum, Char.isAlpha, Char.isUpper, Char.isLower, Char.isDigit,
    UInt32.le_iff_toNat_le] at h
  rcases h with ((h | h) | rfl) | rfl
  · simp only [isSpace, hn, Bool.or_eq_false_iff, Bool.and_eq_false_iff, decide_eq_false_iff_not,
      beq_eq_false_iff_ne]
    omega
  · simp only [isSpace, hn, Bool.or_eq_false_iff, Bool.and_eq_false_iff, decide_eq_false_iff_not,
      beq_eq_false_iff_ne]
    omega
  · decide
  · decide

/-- A token is read back from the header it is sent in. -/
theorem bearerToken_bearer {t : Text} (ht : isToken t = true) :
    bearerToken (some ("Bearer ".toList ++ t)) = some t := by
  obtain ⟨-, hchars⟩ := Bool.and_eq_true_iff.mp ht
  have hsafe : ∀ c ∈ t, isSpace c = false := fun c hc ↦
    isSpace_of_urlSafe (List.all_eq_true.mp hchars c hc)
  have hstrip : strip t = t := by
    rw [strip_eq_iff, List.dropWhile_eq_self_iff, List.rdropWhile_eq_self_iff]
    exact ⟨fun hlen ↦ by simp [hsafe _ (List.getElem_mem hlen)],
      fun hne ↦ by simp [hsafe _ (List.getLast_mem hne)]⟩
  have hheader : "Bearer ".toList = ['B', 'e', 'a', 'r', 'e', 'r', ' '] := by decide
  have hscheme : "bearer ".toList = ['b', 'e', 'a', 'r', 'e', 'r', ' '] := by decide
  have hdrop : (("Bearer ".toList ++ t).dropWhile (· ≠ ' ')).drop 1 = t := by
    rw [hheader]
    rfl
  have htake : (("Bearer ".toList ++ t).take 7).map Char.toLower = "bearer ".toList := by
    rw [hheader, hscheme]
    rfl
  rw [bearerToken, if_pos htake, hdrop, hstrip]

/-- Whoever has a row is let in with the token, and nothing changes. -/
theorem ends_getCurrentPlayer {s : Registry} {a : Account} {t : Text}
    (hhashes : Tables.Unique Account.tokenHash s.rows) (ha : a ∈ s.rows)
    (hash : a.tokenHash = E.hash t) (ht : isToken t = true) :
    (entrance E).Ends (fun r s' ↦ r = .ok (.player a.player) ∧ s' = s)
      (getCurrentPlayer E (some ("Bearer ".toList ++ t))) s := by
  have hne : t ≠ [] := by
    rintro rfl
    cases ht
  have hfind : s.rows.find? (fun a ↦ a.tokenHash == E.hash t) = some a :=
    hhashes.find?_eq_some.mpr ⟨ha, hash⟩
  rw [getCurrentPlayer, bearerToken_bearer ht]
  dsimp only
  rw [resolvePlayer, if_neg hne]
  intro d _
  show (entrance E).Ends _ _ s
  simp only [entrance, Registry.exec, hfind]
  exact ⟨rfl, rfl⟩

/-- **A token stands for the one who joined.**  Whatever is under way and whatever fails, names are
unique; a token that was returned lets its bearer in as the player who was inserted for that join;
and whoever is let in has shown a text with the hash of a token that some join has drawn, and that
very token while nothing that is shown collides with one, and is the player of that join. -/
theorem identified_of_reachable {c : Config AccountOp AccountError Request Registry Reply}
    (h : (entrance E).Reachable c) :
    (c.world.state.rows.map fun a ↦ E.lower.lower a.player.nickname).Nodup ∧
    (∀ (i : ℕ) (req : JoinRequest) (t : Text), c.world.requests[i]? = some (.join req) →
      c.threads[i]? = some (.live (.done (.ok (.token t)))) →
      ∃ a ∈ c.world.state.rows, a.For E req t ∧
        (entrance E).Ends (fun r s ↦ r = .ok (.player a.player) ∧ s = c.world.state)
          (getCurrentPlayer E (some ("Bearer ".toList ++ t))) c.world.state) ∧
    ∀ (j : ℕ) (authorization : Option Text) (p : PlayerRecord),
      c.world.requests[j]? = some (.authenticate authorization) →
      c.threads[j]? = some (.live (.done (.ok (.player p)))) →
      ∃ (t t' : Text) (i : ℕ) (req : JoinRequest), bearerToken authorization = some t ∧
        c.world.requests[i]? = some (.join req) ∧ Drew i t' c.world ∧ E.hash t = E.hash t' ∧
        (Apart E c.world → t = t') ∧
        ∃ a ∈ c.world.state.rows, a.For E req t' ∧ a.player = p := by
  have hgood := good_of_reachable E h
  have hsound : Sound E c.world := hgood.here.2
  refine ⟨hsound.names, fun i req t hreq ht ↦ ?_, fun j authorization p hreq ht ↦ ?_⟩
  · obtain ⟨hdrew, a, ha, hfor⟩ := hgood.post hreq ht _ rfl
    exact ⟨a, ha, hfor, ends_getCurrentPlayer E hsound.hashes ha hfor.1 (hsound.issued i t hdrew).2⟩
  · obtain ⟨t, hbearer, a, ha, htoken, hplayer⟩ := hgood.post hreq ht _ rfl
    obtain ⟨i, req, t', hdrew, hjoin, hfor⟩ := hsound.rows a ha
    have hhash : E.hash t = E.hash t' := htoken.symm.trans hfor.1
    refine ⟨t, t', i, req, hbearer, hjoin, hdrew, hhash, fun hapart ↦ ?_, a, ha, hfor, hplayer⟩
    obtain ⟨x, hx, -, hissued⟩ := hdrew
    exact hapart _ (List.mem_of_getElem? hreq) x hx t hbearer t' hissued hhash

instance (w : Lobby) : Decidable (Apart E w) :=
  inferInstanceAs (Decidable (∀ r ∈ w.requests, ∀ x ∈ w.trace, ∀ t ∈ r.shown,
    ∀ t' ∈ tokenIssued x.2, E.hash t = E.hash t' → t = t'))

/-- A digest of one code point. -/
def checksum (t : Text) : Text :=
  [Char.ofNat (t.foldl (fun n c ↦ (31 * n + c.toNat) % 256) 7)]

/-- An entrance where three names are tried. -/
def threeAttempts : Entrance := ⟨asciiLowercase, checksum, 3⟩

/-- Two players join with one name at the same time, and the second of them comes back. -/
def sameName : List (Event Request Chance AccountError) :=
  let asha : JoinRequest := ⟨"Asha".toList, "Tamil".toList, ["English".toList]⟩
  let ashi : JoinRequest := ⟨"asha ".toList, "Hindi".toList, ["English".toList]⟩
  let draw (c : Char) (n : ℕ) : Chance := ⟨List.replicate 43 c, n⟩
  [.spawn (.join asha), .spawn (.join ashi), .step 0 (draw 'a' 1), .step 1 (draw 'b' 2),
    .step 0 (draw 'c' 3), .step 1 (draw 'd' 4), .step 1 (draw 'e' 5),
    .spawn (.authenticate (some ("Bearer ".toList ++ List.replicate 43 'b'))),
    .step 2 (draw 'f' 6)]

/-- The player a request was answered with. -/
def answeredPlayer (c : Config AccountOp AccountError Request Registry Reply) (j : ℕ) :
    Option PlayerRecord :=
  match c.threads[j]? with
  | some (.live (.done (.ok (.player p)))) => some p
  | _ => none

theorem threads_of_answeredPlayer {c : Config AccountOp AccountError Request Registry Reply}
    {j : ℕ} {p : PlayerRecord} (h : answeredPlayer c j = some p) :
    c.threads[j]? = some (.live (.done (.ok (.player p)))) := by
  rw [answeredPlayer] at h
  split at h
  · rename_i heq
    rw [heq, Option.some.inj h]
  · cases h

theorem identified_of_reachable_sameName : ∃ c, (entrance threeAttempts).Reachable c ∧
    ∃ p : PlayerRecord, answeredPlayer c 2 = some p ∧ p.nickname = "asha#2".toList ∧
      ∃ i req, c.world.requests[i]? = some (.join req) ∧
        Drew i (List.replicate 43 'b') c.world := by
  obtain ⟨c, hc, hcheck⟩ := System.exists_reachable_of_run
    (show (entrance threeAttempts).init ⟨[], []⟩ from ⟨rfl, rfl⟩)
    (show ((entrance threeAttempts).run (System.start ⟨[], []⟩) sameName).map (fun c ↦ decide
      (c.world.requests[2]? =
          some (.authenticate (some ("Bearer ".toList ++ List.replicate 43 'b'))) ∧
        (answeredPlayer c 2).map PlayerRecord.nickname = some "asha#2".toList ∧
        Apart threeAttempts c.world)) = some true by
      decide +kernel)
  obtain ⟨hreq, hanswer, hapart⟩ := of_decide_eq_true hcheck
  obtain ⟨p, hp, hname⟩ := Option.map_eq_some_iff.mp hanswer
  obtain ⟨-, -, hlet⟩ := identified_of_reachable threeAttempts hc
  obtain ⟨t, t', i, req, hbearer, hjoin, hdrew, -, hsame, -⟩ :=
    hlet 2 _ p hreq (threads_of_answeredPlayer hp)
  obtain rfl := hsame hapart
  obtain rfl : List.replicate 43 'b' = t := Option.some.inj
    ((bearerToken_bearer (show isToken (List.replicate 43 'b') = true by decide)).symm.trans
      hbearer)
  exact ⟨c, hc, p, hp, hname, i, req, hjoin, hdrew⟩

end Neva.Sessions

import OpenTela.Lib.OnceOnly
import Mathlib.Algebra.Order.Ring.Int

namespace OpenTela.Auth

structure HTTPException where
  statusCode : ℕ
  detail : String
  deriving DecidableEq

structure CreateKeyRequest where
  wallet : String
  signature : String
  challenge : String
  label : String := ""

structure CreateKeyResponse where
  keyId : String
  token : String
  wallet : String
  label : String
  createdAt : ℤ
  deriving DecidableEq

structure UsedChallenge where
  challenge : String
  expiresAt : ℤ
  deriving DecidableEq

structure APIKey where
  keyId : String
  tokenHash : String
  wallet : String
  label : String
  createdAt : ℤ
  revoked : Bool := false
  deriving DecidableEq

/-- The two tables of the database. -/
structure Database where
  usedChallenges : List UsedChallenge := []
  apiKeys : List APIKey := []

/-- What the server calls: `int` of a string, the signature scheme and the hash. -/
structure Library where
  int : String → Option ℤ
  verifyWalletSignature : String → String → String → Bool
  hashToken : String → String

def challengeTTLSeconds : ℤ := 300

/-- `int(time.time())`; times are in microseconds. -/
def seconds (time : ℤ) : ℤ := time / 1000000

/-- `challenge.split(":")`. -/
def splitColons (challenge : String) : List String := (challenge.toList.splitOn ':').map String.ofList

/-- A request, the readings of the clock that its handler takes, and the key it draws. -/
structure Visit where
  req : CreateKeyRequest
  validated : ℤ
  now : ℤ
  purging : ℤ
  token : String
  keyId : String

section Server

variable (lib : Library)

def validateChallenge (challenge wallet : String) (time : ℤ) : Except HTTPException Unit :=
  match splitColons challenge with
  | [pre, chWallet, tsStr] =>
    if pre ≠ "otela-auth" then
      .error { statusCode := 400, detail := "Challenge must be in the format \"otela-auth:<wallet>:<unix_ts>\"" }
    else if chWallet ≠ wallet then .error { statusCode := 400, detail := "Challenge wallet does not match the request wallet" }
    else
      match lib.int tsStr with
      | none => .error { statusCode := 400, detail := "Challenge timestamp must be a valid integer" }
      | some ts =>
        if seconds time + 60 < ts then .error { statusCode := 400, detail := "Challenge timestamp is too far in the future" }
        else if challengeTTLSeconds < seconds time - ts then .error { statusCode := 400, detail := "Challenge has expired" }
        else .ok ()
  | _ => .error { statusCode := 400, detail := "Challenge must be in the format \"otela-auth:<wallet>:<unix_ts>\"" }

def Database.isUsed (db : Database) (challenge : String) : Bool := db.usedChallenges.any (fun row => row.challenge == challenge)

def Visit.purges (v : Visit) : Bool := decide (seconds v.purging % 10 = 0)

/-- The rows that a purge deletes. -/
def Visit.outdated (v : Visit) (row : UsedChallenge) : Bool := decide (row.expiresAt < v.now)

def Visit.apiKey (v : Visit) : APIKey :=
  { keyId := v.keyId, tokenHash := lib.hashToken v.token, wallet := v.req.wallet, label := v.req.label, createdAt := v.now }

/-- The primary key and the unique column of `api_keys`. -/
def Database.accepts (db : Database) (key : APIKey) : Bool :=
  db.apiKeys.all (fun row => row.keyId ≠ key.keyId && row.tokenHash ≠ key.tokenHash)

/-- The session of `create_key`. An exception rolls it back. -/
def createKey.session (v : Visit) (db : Database) : Except HTTPException CreateKeyResponse × Database :=
  if db.isUsed v.req.challenge then (.error { statusCode := 400, detail := "Challenge has already been used" }, db)
  else
    let kept := if v.purges then db.usedChallenges.filter (fun row => !v.outdated row) else db.usedChallenges
    let row : UsedChallenge := { challenge := v.req.challenge, expiresAt := v.now + challengeTTLSeconds * 1000000 }
    if db.accepts (v.apiKey lib) then
      (.ok { keyId := v.keyId, token := v.token, wallet := v.req.wallet, label := v.req.label, createdAt := v.now },
        { usedChallenges := kept ++ [row], apiKeys := db.apiKeys ++ [v.apiKey lib] })
    else (.error { statusCode := 500, detail := "Internal Server Error" }, db)

def createKey (v : Visit) (db : Database) : Except HTTPException CreateKeyResponse × Database :=
  match validateChallenge lib v.req.challenge v.req.wallet v.validated with
  | .error e => (.error e, db)
  | .ok () =>
    if !lib.verifyWalletSignature v.req.wallet v.req.signature v.req.challenge then
      (.error { statusCode := 403, detail := "Invalid wallet signature" }, db)
    else createKey.session lib v db

/-- The time that a challenge carries. -/
def timestamp (challenge : String) : Option ℤ :=
  match splitColons challenge with
  | [_, _, tsStr] => lib.int tsStr
  | _ => none

/-- The challenge has expired by then. -/
def Past (time : ℤ) (challenge : String) : Prop := ∀ ts ∈ timestamp lib challenge, challengeTTLSeconds < seconds time - ts

/-- The requests handled, each with its answer, what the database is then, and what the clock has read last. The
clock does not go back, and every request `meets` what is asked of it. -/
inductive Served (meets : Database → Visit → Prop) : List (Visit × Except HTTPException CreateKeyResponse) → Database → ℤ → Prop
  | start (clock : ℤ) : Served meets [] {} clock
  | next {log : List (Visit × Except HTTPException CreateKeyResponse)} {db : Database} {clock : ℤ} (v : Visit) :
      Served meets log db clock → clock ≤ v.validated → v.validated ≤ v.now → v.now ≤ v.purging → meets db v →
      Served meets (log ++ [(v, (createKey lib v db).1)]) (createKey lib v db).2 v.purging

/-- The challenges for which a key has been created. -/
def created (log : List (Visit × Except HTTPException CreateKeyResponse)) : List String :=
  (log.filter (fun entry => entry.2.isOk)).map (fun entry => entry.1.req.challenge)

/-- Whether a request comes to the purge. -/
def Visit.admitted (v : Visit) (db : Database) : Bool :=
  (validateChallenge lib v.req.challenge v.req.wallet v.validated).isOk &&
    lib.verifyWalletSignature v.req.wallet v.req.signature v.req.challenge && !db.isUsed v.req.challenge

/-- What a purge deletes has expired. -/
def PurgesExpired (db : Database) (v : Visit) : Prop :=
  v.admitted lib db = true → v.purges = true → ∀ row ∈ db.usedChallenges, v.outdated row = true → Past lib v.purging row.challenge

instance (time : ℤ) (challenge : String) : Decidable (Past lib time challenge) :=
  inferInstanceAs (Decidable (∀ ts ∈ timestamp lib challenge, challengeTTLSeconds < seconds time - ts))

instance (db : Database) (v : Visit) : Decidable (PurgesExpired lib db v) :=
  inferInstanceAs (Decidable (v.admitted lib db = true → v.purges = true →
    ∀ row ∈ db.usedChallenges, v.outdated row = true → Past lib v.purging row.challenge))

end Server

section Runs

variable {lib : Library}

theorem Past.lasting (challenge : String) (s t : ℤ) (later : s ≤ t) (past : Past lib s challenge) : Past lib t challenge := by
  intro ts carries
  have expired := past ts carries
  have advanced : seconds s ≤ seconds t := Int.ediv_le_ediv (by omega) later
  omega

theorem validateChallenge_fresh {challenge wallet : String} {time : ℤ} (valid : validateChallenge lib challenge wallet time = .ok ()) :
    ¬ Past lib time challenge := by
  intro past
  unfold validateChallenge at valid
  split at valid
  · rename_i pre chWallet tsStr parts
    split at valid
    · cases valid
    · split at valid
      · cases valid
      · split at valid
        · cases valid
        · rename_i ts parsed
          have expired := past ts (by simp [timestamp, parts, parsed])
          split at valid
          · cases valid
          · cases valid
  · cases valid

/-- The rows of the used challenges after a request that is granted a key. -/
def Visit.recorded (v : Visit) (db : Database) : List UsedChallenge :=
  (if v.purges then db.usedChallenges.filter (fun row => !v.outdated row) else db.usedChallenges) ++
    [{ challenge := v.req.challenge, expiresAt := v.now + challengeTTLSeconds * 1000000 }]

/-- A request is turned down and changes nothing, or it has come to the purge and is granted a key. -/
theorem createKey_cases (lib : Library) (v : Visit) (db : Database) :
    ((createKey lib v db).1.isOk = false ∧ (createKey lib v db).2 = db) ∨
      ((createKey lib v db).1.isOk = true ∧ v.admitted lib db = true ∧ (createKey lib v db).2.usedChallenges = v.recorded db) := by
  unfold createKey
  cases valid : validateChallenge lib v.req.challenge v.req.wallet v.validated with
  | error e => exact Or.inl ⟨rfl, rfl⟩
  | ok _ =>
    cases signed : lib.verifyWalletSignature v.req.wallet v.req.signature v.req.challenge with
    | false => exact Or.inl ⟨rfl, rfl⟩
    | true =>
      simp only [Bool.not_true, Bool.false_eq_true, if_false, createKey.session]
      split
      · exact Or.inl ⟨rfl, rfl⟩
      · rename_i unused
        split
        · refine Or.inr ⟨rfl, ?_, rfl⟩
          simp [Visit.admitted, valid, signed, unused, Except.isOk, Except.toBool]
        · exact Or.inl ⟨rfl, rfl⟩

theorem isUsed_iff {db : Database} {challenge : String} :
    db.isUsed challenge = true ↔ ∃ row ∈ db.usedChallenges, row.challenge = challenge := by
  simp [Database.isUsed]

theorem admitted_fresh {v : Visit} {db : Database} (admitted : v.admitted lib db = true) :
    ¬ Past lib v.validated v.req.challenge ∧ db.isUsed v.req.challenge = false := by
  simp only [Visit.admitted, Bool.and_eq_true, Bool.not_eq_true'] at admitted
  obtain ⟨⟨valid, _⟩, unused⟩ := admitted
  refine ⟨?_, unused⟩
  cases answer : validateChallenge lib v.req.challenge v.req.wallet v.validated with
  | error e =>
    rw [answer] at valid
    cases valid
  | ok _ => exact validateChallenge_fresh answer

/-- A row stays, unless the purge deletes it. -/
theorem mem_recorded {v : Visit} {db : Database} {row : UsedChallenge} (member : row ∈ db.usedChallenges) :
    row ∈ v.recorded db ∨ v.purges = true ∧ v.outdated row = true := by
  unfold Visit.recorded
  cases due : v.purges with
  | false => exact Or.inl (List.mem_append_left _ member)
  | true =>
    cases gone : v.outdated row with
    | true => exact Or.inr ⟨rfl, rfl⟩
    | false => exact Or.inl (List.mem_append_left _ (List.mem_filter.mpr ⟨member, by simp [gone]⟩))

theorem created_append (log : List (Visit × Except HTTPException CreateKeyResponse)) (v : Visit)
    (answer : Except HTTPException CreateKeyResponse) :
    created (log ++ [(v, answer)]) = created log ++ if answer.isOk then [v.req.challenge] else [] := by
  cases ok : answer.isOk <;> simp [created, ok]

/-- The server as one who remembers the challenges used: it forgets those whose rows it purges. -/
theorem Served.once {log : List (Visit × Except HTTPException CreateKeyResponse)} {db : Database} {clock : ℤ}
    (served : Served lib (PurgesExpired lib) log db clock) :
    OnceOnly.Run (Past lib) clock {challenge | db.isUsed challenge = true} (created log) := by
  induction served with
  | start clock =>
    have none : {challenge | ({} : Database).isUsed challenge = true} = ∅ := by simp [Database.isUsed]
    rw [none]
    exact .start clock
  | @next log db clock v before later₁ later₂ later₃ meets ih =>
    rw [created_append]
    rcases createKey_cases lib v db with ⟨refused, same⟩ | ⟨granted, admitted, rows⟩
    · rw [refused, same]
      simpa using ih.wait (by omega : clock ≤ v.purging)
    · rw [granted, if_pos rfl]
      obtain ⟨fresh, unused⟩ := admitted_fresh admitted
      refine (ih.wait later₁).use (by omega : v.validated ≤ v.purging) fresh (by simp [unused]) ?_ (fun other member => ?_)
      · refine isUsed_iff.mpr ⟨{ challenge := v.req.challenge, expiresAt := v.now + challengeTTLSeconds * 1000000 }, ?_, rfl⟩
        rw [rows]
        exact List.mem_append_right _ List.mem_cons_self
      · obtain ⟨row, there, rfl⟩ := isUsed_iff.mp member
        rcases mem_recorded there with kept | ⟨due, gone⟩
        · refine Or.inl (isUsed_iff.mpr ⟨row, ?_, rfl⟩)
          rw [rows]
          exact kept
        · exact Or.inr (meets admitted due row there gone)

end Runs

/-- While the purges delete nothing that has not expired, no challenge leads to two keys. -/
theorem challenge_single_use {lib : Library} {log : List (Visit × Except HTTPException CreateKeyResponse)} {db : Database}
    {clock : ℤ} (served : Served lib (PurgesExpired lib) log db clock) : (created log).Nodup :=
  served.once.nodup Past.lasting

namespace Reused

/-- `int` on a string of digits. -/
def lib : Library where
  int := fun s => some (s.toList.foldl (fun n c => 10 * n + (c.toNat - 48 : ℕ)) 0)
  verifyWalletSignature := fun _ _ _ => true
  hashToken := fun token => token

def visit (challenge : String) (second : ℤ) (key : String) : Visit :=
  let time := second * 1000000
  { req := { wallet := "w", signature := "s", challenge }, validated := time, now := time, purging := time, token := key, keyId := key }

def serve (v : Visit) (db : Database) : Database := (createKey lib v db).2

/-- The clock of the client is a minute ahead of the server's. -/
def ahead : Visit := visit "otela-auth:w:160" 100 "k1"

def other : Visit := visit "otela-auth:w:410" 410 "k2"

def again : Visit := visit "otela-auth:w:160" 411 "k3"

/-- A purge when the challenge has expired. -/
def late : Visit := visit "otela-auth:w:470" 470 "k2"

end Reused

open Reused in
theorem challenge_single_use_purged : ∃ log, created log = ["otela-auth:w:160", "otela-auth:w:470"] ∧ (created log).Nodup := by
  have first : Served lib (PurgesExpired lib) _ (serve ahead {}) _ :=
    .next ahead (.start 0) (by decide) (by decide) (by decide) (by decide +kernel)
  have second : Served lib (PurgesExpired lib) _ (serve late (serve ahead {})) _ :=
    .next late first (by decide) (by decide) (by decide) (by decide +kernel)
  exact ⟨_, by decide +kernel, challenge_single_use second⟩

open Reused in
/-- The row of a challenge from a clock that is ahead is purged before the challenge has expired, and a replay gets a
second key. -/
theorem challenge_replayed : ¬ ∀ lib log db clock, Served lib (fun _ _ => True) log db clock → (created log).Nodup := by
  intro always
  have first : Served lib (fun _ _ => True) _ (serve ahead {}) _ :=
    .next ahead (.start 0) (by decide) (by decide) (by decide) trivial
  have second : Served lib (fun _ _ => True) _ (serve other (serve ahead {})) _ :=
    .next other first (by decide) (by decide) (by decide) trivial
  have third : Served lib (fun _ _ => True) _ (serve again (serve other (serve ahead {}))) _ :=
    .next again second (by decide) (by decide) (by decide) trivial
  exact absurd (always _ _ _ _ third) (by decide +kernel)

end OpenTela.Auth

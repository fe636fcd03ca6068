import OpenTela.Auth.Challenges
import Mathlib.Data.List.Induction

namespace OpenTela.Auth

structure KeyInfo where
  keyId : String
  wallet : String
  label : String
  createdAt : ℤ
  revoked : Bool
  deriving DecidableEq

structure VerifyResponse where
  wallet : String
  keyId : String
  deriving DecidableEq

structure RevokeResponse where
  status : String
  keyId : String
  deriving DecidableEq

def APIKey.info (row : APIKey) : KeyInfo :=
  { keyId := row.keyId, wallet := row.wallet, label := row.label, createdAt := row.createdAt, revoked := row.revoked }

def listKeys (wallet : String) (db : Database) : List KeyInfo :=
  (db.apiKeys.filter (fun row => row.wallet = wallet)).map APIKey.info

/-- The update that the session writes: the row of a primary key. -/
def Database.revoke (db : Database) (keyId : String) : Database :=
  { db with apiKeys := db.apiKeys.map (fun row => if row.keyId = keyId then { row with revoked := true } else row) }

def revokeKey (keyId wallet : String) (db : Database) : Except HTTPException RevokeResponse × Database :=
  match db.apiKeys.find? (fun row => row.keyId = keyId) with
  | none => (.error { statusCode := 404, detail := "Key not found" }, db)
  | some row =>
    if row.wallet ≠ wallet then (.error { statusCode := 403, detail := "Wallet mismatch" }, db)
    else (.ok { status := "revoked", keyId }, db.revoke keyId)

def verifyToken (lib : Library) (token : String) (db : Database) : Except HTTPException VerifyResponse :=
  let h := lib.hashToken token
  match db.apiKeys.find? (fun row => row.tokenHash = h) with
  | none => .error { statusCode := 401, detail := "Invalid token" }
  | some row =>
    if row.revoked then .error { statusCode := 401, detail := "Token has been revoked" }
    else .ok { wallet := row.wallet, keyId := row.keyId }

/-- What the four endpoints are asked. -/
inductive Call where
  | create (v : Visit)
  | list (wallet : String)
  | revoke (keyId wallet : String)
  | verify (token : String)

def Call.serve (lib : Library) : Call → Database → Database
  | .create v, db => (createKey lib v db).2
  | .revoke keyId wallet, db => (revokeKey keyId wallet db).2
  | .list _, db | .verify _, db => db

/-- The database after these calls. -/
def served (lib : Library) (calls : List Call) : Database := calls.foldl (fun db call => call.serve lib db) {}

theorem served_append (lib : Library) (calls : List Call) (call : Call) :
    served lib (calls ++ [call]) = call.serve lib (served lib calls) := by
  simp [served]

/-- A key granted in the course of these calls, and the calls that follow. -/
structure Granted (lib : Library) (calls : List Call) (v : Visit) (later : List Call) : Prop where
  split : ∃ before, calls = before ++ .create v :: later ∧ (createKey lib v (served lib before)).1.isOk = true

/-- The row of a key by now. -/
def Visit.row (v : Visit) (lib : Library) (later : List Call) : APIKey :=
  { v.apiKey lib with revoked := later.any (fun call => match call with
      | .revoke keyId wallet => keyId = v.keyId && wallet = v.req.wallet
      | _ => false) }

/-- No two rows share their primary key, or the column that is to be unique. -/
structure Database.Keyed (db : Database) : Prop where
  ids : (db.apiKeys.map APIKey.keyId).Nodup
  hashes : (db.apiKeys.map APIKey.tokenHash).Nodup

section Rows

variable {lib : Library} {db : Database} {v : Visit} {later : List Call}

theorem Visit.row_revoked (lib : Library) : (v.row lib later).revoked = true ↔ Call.revoke v.keyId v.req.wallet ∈ later := by
  simp only [Visit.row, List.any_eq_true]
  constructor
  · rintro ⟨call, member, revokes⟩
    cases call with
    | revoke keyId wallet =>
      obtain ⟨same, owner⟩ := (Bool.and_eq_true _ _).mp revokes
      rw [← of_decide_eq_true same, ← of_decide_eq_true owner]
      exact member
    | create | list | verify => cases revokes
  · intro member
    exact ⟨_, member, by simp⟩

/-- A request that is granted a key adds its row; one that is not leaves the rows alone. -/
theorem createKey_rows (lib : Library) (v : Visit) (db : Database) :
    ((createKey lib v db).1.isOk = false ∧ (createKey lib v db).2.apiKeys = db.apiKeys) ∨
      ((createKey lib v db).1.isOk = true ∧ db.accepts (v.apiKey lib) = true ∧
        lib.verifyWalletSignature v.req.wallet v.req.signature v.req.challenge = true ∧
        (createKey lib v db).2.apiKeys = db.apiKeys ++ [v.apiKey lib]) := by
  unfold createKey
  cases valid : validateChallenge lib v.req.challenge v.req.wallet v.validated with
  | error e => exact Or.inl ⟨rfl, rfl⟩
  | ok _ =>
    cases signed : lib.verifyWalletSignature v.req.wallet v.req.signature v.req.challenge with
    | false => exact Or.inl ⟨rfl, rfl⟩
    | true =>
      simp only [Bool.not_true, Bool.false_eq_true, if_false, createKey.session]
      split
      · exact Or.inl ⟨rfl, rfl⟩
      · split
        · rename_i accepted
          exact Or.inr ⟨rfl, accepted, trivial, rfl⟩
        · exact Or.inl ⟨rfl, rfl⟩

theorem Database.Keyed.append (keyed : db.Keyed) (accepted : db.accepts (v.apiKey lib) = true) {db' : Database}
    (rows : db'.apiKeys = db.apiKeys ++ [v.apiKey lib]) : db'.Keyed := by
  have fresh : ∀ row ∈ db.apiKeys, row.keyId ≠ v.keyId ∧ row.tokenHash ≠ lib.hashToken v.token := by
    intro row member
    obtain ⟨id, hash⟩ := (Bool.and_eq_true _ _).mp (List.all_eq_true.mp accepted row member)
    exact ⟨of_decide_eq_true id, of_decide_eq_true hash⟩
  constructor
  · rw [rows, List.map_append]
    refine List.Nodup.append keyed.ids (List.nodup_singleton _) (fun id old new => ?_)
    obtain ⟨row, member, rfl⟩ := List.mem_map.mp old
    exact (fresh row member).1 (List.mem_singleton.mp new)
  · rw [rows, List.map_append]
    refine List.Nodup.append keyed.hashes (List.nodup_singleton _) (fun hash old new => ?_)
    obtain ⟨row, member, rfl⟩ := List.mem_map.mp old
    exact (fresh row member).2 (List.mem_singleton.mp new)

theorem Database.Keyed.revoke (keyed : db.Keyed) (keyId : String) : (db.revoke keyId).Keyed := by
  have ids : (db.revoke keyId).apiKeys.map APIKey.keyId = db.apiKeys.map APIKey.keyId := by
    simp only [Database.revoke, List.map_map]
    refine List.map_congr_left (fun row _ => ?_)
    simp only [Function.comp_apply]
    split <;> rfl
  have hashes : (db.revoke keyId).apiKeys.map APIKey.tokenHash = db.apiKeys.map APIKey.tokenHash := by
    simp only [Database.revoke, List.map_map]
    refine List.map_congr_left (fun row _ => ?_)
    simp only [Function.comp_apply]
    split <;> rfl
  exact ⟨ids ▸ keyed.ids, hashes ▸ keyed.hashes⟩

/-- A search by a column that is unique finds the row there is. -/
theorem find_unique {α β : Type} [DecidableEq β] {f : α → β} {l : List α} (nodup : (l.map f).Nodup) {a : α} (member : a ∈ l) :
    l.find? (fun x => decide (f x = f a)) = some a := by
  induction l with
  | nil => cases member
  | cons b rest ih =>
    rw [List.map_cons, List.nodup_cons] at nodup
    rcases List.mem_cons.mp member with rfl | there
    · simp
    · have other : f b ≠ f a := fun same => nodup.1 (same ▸ List.mem_map_of_mem there)
      rw [List.find?_cons_of_neg (by simpa using other)]
      exact ih nodup.2 there

theorem revokeKey_cases (keyed : db.Keyed) (keyId wallet : String) :
    ((revokeKey keyId wallet db).2 = db ∧ ∀ row ∈ db.apiKeys, row.keyId = keyId → row.wallet ≠ wallet) ∨
      ((revokeKey keyId wallet db).2 = db.revoke keyId ∧ ∀ row ∈ db.apiKeys, row.keyId = keyId → row.wallet = wallet) := by
  unfold revokeKey
  cases found : db.apiKeys.find? (fun row => row.keyId = keyId) with
  | none =>
    refine Or.inl ⟨rfl, fun row member same => ?_⟩
    exact absurd same (by simpa using List.find?_eq_none.mp found row member)
  | some row =>
    have there := List.mem_of_find?_eq_some found
    have same : row.keyId = keyId := by simpa using List.find?_some found
    have only : ∀ other ∈ db.apiKeys, other.keyId = keyId → other = row := by
      intro other member named
      exact List.inj_on_of_nodup_map keyed.ids member there (named.trans same.symm)
    by_cases owner : row.wallet = wallet
    · refine Or.inr ⟨?_, fun other member named => only other member named ▸ owner⟩
      simp [owner]
    · refine Or.inl ⟨?_, fun other member named => only other member named ▸ owner⟩
      simp [owner]

end Rows

section History

variable {lib : Library} {calls : List Call} {v : Visit} {later : List Call}

theorem Visit.row_append (call : Call) : v.row lib (later ++ [call]) = v.row lib later ∨
    call = .revoke v.keyId v.req.wallet ∧ v.row lib (later ++ [call]) = { v.row lib later with revoked := true } := by
  by_cases own : call = .revoke v.keyId v.req.wallet
  · subst own
    exact Or.inr ⟨rfl, by simp [Visit.row]⟩
  · refine Or.inl ?_
    cases call with
    | revoke keyId wallet =>
      have other : ¬ (keyId = v.keyId ∧ wallet = v.req.wallet) := by
        rintro ⟨rfl, rfl⟩
        exact own rfl
      simp [Visit.row, other]
    | create | list | verify => simp [Visit.row]

/-- A key granted by now was granted before the last call, or by it. -/
theorem granted_append {call : Call} : Granted lib (calls ++ [call]) v later ↔
    (∃ later', later = later' ++ [call] ∧ Granted lib calls v later') ∨
      (later = [] ∧ call = .create v ∧ (createKey lib v (served lib calls)).1.isOk = true) := by
  constructor
  · rintro ⟨before, split, granted⟩
    rcases List.eq_nil_or_concat later with rfl | ⟨later', last, rfl⟩
    · obtain ⟨rfl, same⟩ := List.append_inj' split rfl
      exact Or.inr ⟨rfl, List.singleton_inj.mp same, granted⟩
    · rw [List.concat_eq_append] at split ⊢
      rw [← List.cons_append, ← List.append_assoc] at split
      obtain ⟨rfl, same⟩ := List.append_inj' split rfl
      exact Or.inl ⟨later', by rw [List.singleton_inj.mp same], ⟨before, rfl, granted⟩⟩
  · rintro (⟨later', rfl, before, rfl, granted⟩ | ⟨rfl, rfl, granted⟩)
    · exact ⟨before, by simp, granted⟩
    · exact ⟨calls, rfl, granted⟩

/-- A database whose rows are those of the keys granted, each revoked if its owner has asked for it since. -/
structure Records (lib : Library) (calls : List Call) (db : Database) : Prop where
  keyed : db.Keyed
  rows : ∀ row, row ∈ db.apiKeys ↔ ∃ v later, Granted lib calls v later ∧ row = v.row lib later

/-- What a call comes to: the rows of the keys granted before it, as they are now, and a row for a key it is granted. -/
theorem Records.next {call : Call} {db : Database} (keyed : db.Keyed)
    (rows : ∀ row, row ∈ db.apiKeys ↔ (∃ v later, Granted lib calls v later ∧ row = v.row lib (later ++ [call])) ∨
      ∃ v, call = .create v ∧ (createKey lib v (served lib calls)).1.isOk = true ∧ row = v.row lib []) :
    Records lib (calls ++ [call]) db := by
  refine ⟨keyed, fun row => (rows row).trans ⟨?_, ?_⟩⟩
  · rintro (⟨v, later, granted, rfl⟩ | ⟨v, created, ok, rfl⟩)
    · exact ⟨v, later ++ [call], granted_append.mpr (Or.inl ⟨later, rfl, granted⟩), rfl⟩
    · exact ⟨v, [], granted_append.mpr (Or.inr ⟨rfl, created, ok⟩), rfl⟩
  · rintro ⟨v, later, granted, rfl⟩
    rcases granted_append.mp granted with ⟨later', rfl, before⟩ | ⟨rfl, created, ok⟩
    · exact Or.inl ⟨v, later', before, rfl⟩
    · exact Or.inr ⟨v, created, ok, rfl⟩

/-- A call that is granted nothing and revokes none of the keys there are. -/
theorem Records.keep {db db' : Database} (records : Records lib calls db) {call : Call} (same : db'.apiKeys = db.apiKeys)
    (none : ∀ v, ¬ (call = .create v ∧ (createKey lib v (served lib calls)).1.isOk = true))
    (others : ∀ v later, Granted lib calls v later → call ≠ .revoke v.keyId v.req.wallet) : Records lib (calls ++ [call]) db' := by
  refine .next ⟨same ▸ records.keyed.ids, same ▸ records.keyed.hashes⟩ (fun row => ?_)
  have unchanged : ∀ v later, Granted lib calls v later → v.row lib (later ++ [call]) = v.row lib later := fun v later granted =>
    (Visit.row_append call).elim id (fun revoked => absurd revoked.1 (others v later granted))
  rw [same, records.rows]
  constructor
  · rintro ⟨v, later, granted, rfl⟩
    exact Or.inl ⟨v, later, granted, (unchanged v later granted).symm⟩
  · rintro (⟨v, later, granted, rfl⟩ | ⟨v, created, ok, _⟩)
    · exact ⟨v, later, granted, unchanged v later granted⟩
    · exact absurd ⟨created, ok⟩ (none v)

theorem Records.create (records : Records lib calls (served lib calls)) (v : Visit) :
    Records lib (calls ++ [.create v]) (createKey lib v (served lib calls)).2 := by
  rcases createKey_rows lib v (served lib calls) with ⟨refused, same⟩ | ⟨ok, accepted, _, added⟩
  · refine records.keep same ?_ (fun _ _ _ => by simp)
    rintro v' ⟨own, granted⟩
    cases own
    rw [refused] at granted
    cases granted
  · refine .next (records.keyed.append accepted added) (fun row => ?_)
    have unchanged : ∀ (v' : Visit) (later : List Call), v'.row lib (later ++ [.create v]) = v'.row lib later := fun v' later =>
      (Visit.row_append _).elim id (fun revoked => by cases revoked.1)
    rw [added, List.mem_append, List.mem_singleton, records.rows]
    simp only [unchanged]
    refine or_congr_right ⟨fun own => ⟨v, rfl, ok, own⟩, ?_⟩
    rintro ⟨v', own, _, row⟩
    cases own
    exact row

theorem Records.revoke {db : Database} (records : Records lib calls db) (keyId wallet : String) :
    Records lib (calls ++ [.revoke keyId wallet]) (revokeKey keyId wallet db).2 := by
  rcases revokeKey_cases records.keyed keyId wallet with ⟨same, notTheirs⟩ | ⟨revoked, theirs⟩
  · refine records.keep (congrArg Database.apiKeys same) (fun _ => by simp) (fun v later granted own => ?_)
    cases own
    exact notTheirs _ ((records.rows _).mpr ⟨v, later, granted, rfl⟩) rfl rfl
  · rw [revoked]
    refine .next (records.keyed.revoke keyId) (fun row => ?_)
    -- The update is what the call does to the row of each key.
    have update : ∀ v later, Granted lib calls v later → v.row lib (later ++ [.revoke keyId wallet]) =
        if (v.row lib later).keyId = keyId then { v.row lib later with revoked := true } else v.row lib later := by
      intro v later granted
      by_cases named : (v.row lib later).keyId = keyId
      · have owner : v.req.wallet = wallet := theirs _ ((records.rows _).mpr ⟨v, later, granted, rfl⟩) named
        rw [if_pos named]
        simp [Visit.row, ← owner, ← show v.keyId = keyId from named]
      · rw [if_neg named]
        exact (Visit.row_append _).elim id (fun revoked => absurd (Call.revoke.inj revoked.1).1.symm named)
    simp only [Database.revoke, List.mem_map, records.rows]
    constructor
    · rintro ⟨_, ⟨v, later, granted, rfl⟩, rfl⟩
      exact Or.inl ⟨v, later, granted, (update v later granted).symm⟩
    · rintro (⟨v, later, granted, rfl⟩ | ⟨v, created, _⟩)
      · exact ⟨_, ⟨v, later, granted, rfl⟩, (update v later granted).symm⟩
      · cases created

theorem served_records (lib : Library) (calls : List Call) : Records lib calls (served lib calls) := by
  induction calls using List.reverseRecOn with
  | nil =>
    refine ⟨⟨List.nodup_nil, List.nodup_nil⟩, fun row => ⟨fun member => (by cases member), ?_⟩⟩
    rintro ⟨v, later, ⟨before, split, _⟩, _⟩
    simp at split
  | append_singleton calls call ih =>
    rw [served_append]
    cases call with
    | create v => exact ih.create v
    | revoke keyId wallet => exact ih.revoke keyId wallet
    | list wallet => exact ih.keep rfl (by simp) (by simp)
    | verify token => exact ih.keep rfl (by simp) (by simp)

theorem Granted.signed (granted : Granted lib calls v later) :
    lib.verifyWalletSignature v.req.wallet v.req.signature v.req.challenge = true := by
  obtain ⟨before, _, ok⟩ := granted
  rcases createKey_rows lib v (served lib before) with ⟨refused, _⟩ | ⟨_, _, signed, _⟩
  · rw [refused] at ok
    cases ok
  · exact signed

/-- A token is accepted exactly if its key has been granted and not revoked since. -/
theorem verifyToken_iff (lib : Library) (calls : List Call) (token wallet keyId : String) :
    verifyToken lib token (served lib calls) = .ok { wallet, keyId } ↔
      ∃ v later, Granted lib calls v later ∧ lib.hashToken v.token = lib.hashToken token ∧ v.req.wallet = wallet ∧
        v.keyId = keyId ∧ Call.revoke keyId wallet ∉ later := by
  obtain ⟨keyed, rows⟩ := served_records lib calls
  constructor
  · intro accepted
    simp only [verifyToken] at accepted
    split at accepted
    · cases accepted
    · rename_i row found
      obtain ⟨v, later, granted, rfl⟩ := (rows row).mp (List.mem_of_find?_eq_some found)
      have hash : (v.row lib later).tokenHash = lib.hashToken token := by simpa using List.find?_some found
      split at accepted
      · cases accepted
      · rename_i alive
        cases accepted
        exact ⟨v, later, granted, hash, rfl, rfl, fun member => alive ((Visit.row_revoked lib).mpr member)⟩
  · rintro ⟨v, later, granted, hash, rfl, rfl, alive⟩
    have found := find_unique keyed.hashes ((rows _).mpr ⟨v, later, granted, rfl⟩)
    have column : (v.row lib later).tokenHash = lib.hashToken token := hash
    rw [column] at found
    have unrevoked : (v.row lib later).revoked = false :=
      Bool.eq_false_iff.mpr (fun revoked => alive ((Visit.row_revoked lib).mp revoked))
    simp only [verifyToken, found, unrevoked, Bool.false_eq_true, if_false]
    rfl

/-- A wallet's list has each key granted to it once. -/
theorem listKeys_ids (lib : Library) (calls : List Call) (wallet : String) :
    ((listKeys wallet (served lib calls)).map KeyInfo.keyId).Nodup := by
  have ids : (listKeys wallet (served lib calls)).map KeyInfo.keyId =
      ((served lib calls).apiKeys.filter (fun row => row.wallet = wallet)).map APIKey.keyId := by
    simp only [listKeys, List.map_map]
    rfl
  rw [ids]
  exact (served_records lib calls).keyed.ids.sublist (List.filter_sublist.map _)

theorem mem_listKeys (lib : Library) (calls : List Call) (wallet : String) (info : KeyInfo) :
    info ∈ listKeys wallet (served lib calls) ↔
      ∃ v later, Granted lib calls v later ∧ v.req.wallet = wallet ∧
        info = { keyId := v.keyId, wallet, label := v.req.label, createdAt := v.now, revoked := info.revoked } ∧
        (info.revoked = true ↔ Call.revoke v.keyId wallet ∈ later) := by
  simp only [listKeys, List.mem_map, List.mem_filter, (served_records lib calls).rows, decide_eq_true_eq]
  constructor
  · rintro ⟨_, ⟨⟨v, later, granted, rfl⟩, rfl⟩, rfl⟩
    exact ⟨v, later, granted, rfl, rfl, Visit.row_revoked lib⟩
  · rintro ⟨v, later, granted, rfl, shape, revoked⟩
    refine ⟨v.row lib later, ⟨⟨v, later, granted, rfl⟩, rfl⟩, ?_⟩
    have same : (v.row lib later).revoked = info.revoked :=
      Bool.eq_iff_iff.mpr ((Visit.row_revoked lib).trans revoked.symm)
    rw [shape]
    simp only [APIKey.info, same]
    rfl

end History

/-- The server's answers after any calls. A token is accepted for a wallet and a key exactly if the key was granted for
a token of the same hash to a request that the wallet had signed, and the wallet has not asked to revoke it since. A wallet's
list has each key granted to it once, with whether it has been revoked since. -/
theorem keys_history (lib : Library) (calls : List Call) :
    (∀ token wallet keyId, verifyToken lib token (served lib calls) = .ok { wallet, keyId } ↔
      ∃ v later, Granted lib calls v later ∧ lib.verifyWalletSignature wallet v.req.signature v.req.challenge = true ∧
        lib.hashToken v.token = lib.hashToken token ∧ v.req.wallet = wallet ∧ v.keyId = keyId ∧
        Call.revoke keyId wallet ∉ later) ∧
    ∀ wallet, ((listKeys wallet (served lib calls)).map KeyInfo.keyId).Nodup ∧
      ∀ info, info ∈ listKeys wallet (served lib calls) ↔
        ∃ v later, Granted lib calls v later ∧ v.req.wallet = wallet ∧
          info = { keyId := v.keyId, wallet, label := v.req.label, createdAt := v.now, revoked := info.revoked } ∧
          (info.revoked = true ↔ Call.revoke v.keyId wallet ∈ later) := by
  refine ⟨fun token wallet keyId => ?_, fun wallet => ⟨listKeys_ids lib calls wallet, mem_listKeys lib calls wallet⟩⟩
  rw [verifyToken_iff]
  constructor
  · rintro ⟨v, later, granted, hash, rfl, id, alive⟩
    exact ⟨v, later, granted, granted.signed, hash, rfl, id, alive⟩
  · rintro ⟨v, later, granted, _, hash, owner, id, alive⟩
    exact ⟨v, later, granted, hash, owner, id, alive⟩

end OpenTela.Auth

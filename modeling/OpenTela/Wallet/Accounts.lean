import OpenTela.Solana.Client
import OpenTela.Swim.Wire

namespace OpenTela.Wallet

open OpenTela.Solana (PrivateKey)

structure Account where
  type : String := ""
  publicKey : String := ""
  privateKey : String := ""
  filePath : String := ""
  createdAt : ℤ := 0
  providerID : String := ""

/-- What is under the path of `accounts.json`. -/
inductive AccountsFile where
  | absent
  | garbled
  | holding (accounts : List Account)

def AccountsFile.accounts : AccountsFile → List Account
  | .holding accounts => accounts
  | _ => []

/-- The manager, with the file that it saves to. -/
structure WalletManager where
  storageDir : String
  accounts : List Account
  file : AccountsFile

/-- `base58.Encode` and `filepath.Join`. -/
structure Packages where
  base58 : List UInt8 → String
  join : List String → String

/-- How the accounts come to be saved. A write that fails may leave anything in the file. -/
inductive Save where
  | unmarshalled (err : String)
  | unwritten (err : String) (left : AccountsFile)
  | written

/-- What the file system makes of one call. -/
structure Disk where
  mkdirAll : Except String Unit := .ok ()
  encodeKeypair : Except String Unit := .ok ()
  writeKeypair : Except String Unit := .ok ()
  save : Save := .written

def saveAccounts (save : Save) (wm : WalletManager) : Except String Unit × WalletManager :=
  match save with
  | .unmarshalled err => (.error ("failed to marshal accounts: " ++ err), wm)
  | .unwritten err left => (.error ("failed to write accounts file: " ++ err), { wm with file := left })
  | .written => (.ok (), { wm with file := .holding wm.accounts })

def writeSolanaKeypair (disk : Disk) : Except String Unit := do
  disk.encodeKeypair.mapError ("failed to encode Solana keypair: " ++ ·)
  disk.writeKeypair.mapError ("failed to write Solana keypair: " ++ ·)

def deriveProviderID (publicKey : String) : String := "otela-" ++ String.ofList (publicKey.toList.take 12)

/-- The bytes of the keypair file, if all of its numbers are bytes. -/
def keypairBytes : ℕ → (ints : List ℤ) → Except String { bs : List UInt8 // bs.length = ints.length }
  | _, [] => .ok ⟨[], rfl⟩
  | i, v :: rest =>
    if v < 0 ∨ 255 < v then .error s!"byte value out of range at index {i}: {v}"
    else (keypairBytes (i + 1) rest).map (fun bs => ⟨UInt8.ofNat v.toNat :: bs.1, congrArg Nat.succ bs.2⟩)

/-- `parsed` is what the JSON parser makes of the file. -/
def parseSolanaKeypairJSON (parsed : Except String (List ℤ)) : Except String PrivateKey :=
  match parsed with
  | .error err => .error ("failed to parse keypair JSON: " ++ err)
  | .ok ints =>
    if size : ints.length = 64 then (keypairBytes 0 ints).map (fun bs => ⟨bs.1, bs.2.trans size⟩)
    else .error s!"keypair has invalid size {ints.length} (expected 64)"

/-- What a call returns: the account, and the error if there is one. -/
abbrev Answer : Type := Account × Option String

variable (pk : Packages)

/-- The account of a key. -/
def newAccount (storageDir : String) (now : ℤ) (key : PrivateKey) : Account :=
  { type := "solana"
    publicKey := pk.base58 key.pub
    privateKey := String.ofList (Swim.base64 key.1)
    filePath := pk.join [pk.join [storageDir, "accounts", pk.base58 key.pub], "keypair.json"]
    createdAt := now
    providerID := deriveProviderID (pk.base58 key.pub) }

/-- The end that `AddSolanaAccount` and `ImportSolanaKeypair` have in common. -/
def manageKey (disk : Disk) (now : ℤ) (key : PrivateKey) (wm : WalletManager) : Answer × WalletManager :=
  match disk.mkdirAll with
  | .error err => (({}, some ("failed to create account directory: " ++ err)), wm)
  | .ok () =>
    match writeSolanaKeypair disk with
    | .error err => (({}, some err), wm)
    | .ok () =>
      let account := newAccount pk wm.storageDir now key
      match saveAccounts disk.save { wm with accounts := wm.accounts ++ [account] } with
      | (.error err, wm) => (({}, some err), wm)
      | (.ok (), wm) => ((account, none), wm)

/-- The public key that `ed25519.GenerateKey` returns is that of the private one. -/
def addSolanaAccount (generated : Except String PrivateKey) (disk : Disk) (now : ℤ) (wm : WalletManager) : Answer × WalletManager :=
  match generated with
  | .error err => (({}, some ("failed to generate Solana keypair: " ++ err)), wm)
  | .ok key => manageKey pk disk now key wm

/-- `file` is what reading the file comes to. -/
def importSolanaKeypair (file : Except String (Except String (List ℤ))) (disk : Disk) (now : ℤ) (wm : WalletManager) :
    Answer × WalletManager :=
  match file with
  | .error err => (({}, some ("failed to read keypair file: " ++ err)), wm)
  | .ok parsed =>
    match parseSolanaKeypairJSON parsed with
    | .error err => (({}, some err), wm)
    | .ok key =>
      match wm.accounts.find? (fun acc => acc.publicKey = pk.base58 key.pub) with
      | some acc => ((acc, some s!"account {pk.base58 key.pub} already exists"), wm)
      | none => manageKey pk disk now key wm

inductive Call where
  | add (generated : Except String PrivateKey) (disk : Disk) (now : ℤ)
  | importKeypair (file : Except String (Except String (List ℤ))) (disk : Disk) (now : ℤ)

def Call.perform (wm : WalletManager) : Call → Answer × WalletManager
  | .add generated disk now => addSolanaAccount pk generated disk now wm
  | .importKeypair file disk now => importSolanaKeypair pk file disk now wm

def Call.disk : Call → Disk
  | .add _ disk _ => disk
  | .importKeypair _ disk _ => disk

def Call.now : Call → ℤ
  | .add _ _ now => now
  | .importKeypair _ _ now => now

/-- The key that a call comes to manage, if it finds one and has no account of it. -/
def Call.key (wm : WalletManager) : Call → Option PrivateKey
  | .add generated _ _ => generated.toOption
  | .importKeypair file _ _ =>
    (file.bind parseSolanaKeypairJSON).toOption.filter (fun key => pk.base58 key.pub ∉ wm.accounts.map Account.publicKey)

def WalletManager.run (wm : WalletManager) (calls : List Call) : WalletManager :=
  calls.foldl (fun wm call => (call.perform pk wm).2) wm

/-- Something holds of each call of a sequence and the manager it is made on. -/
def Along (holds : WalletManager → Call → Prop) : WalletManager → List Call → Prop
  | _, [] => True
  | wm, call :: rest => holds wm call ∧ Along holds (call.perform pk wm).2 rest

/-- A call that fails leaves the list alone, and one that succeeds adds one account to the list and to the file. -/
def Atomic (wm : WalletManager) (call : Call) : Prop :=
  match call.perform pk wm with
  | ((_, some _), after) => after.accounts = wm.accounts
  | ((account, none), after) =>
    (∃ key : PrivateKey, account.privateKey = String.ofList (Swim.base64 key.1) ∧ account.publicKey = pk.base58 key.pub) ∧
    after.accounts = wm.accounts ++ [account] ∧ after.file.accounts = wm.file.accounts ++ [account]

/-- The call gets as far as saving the accounts. -/
def Saves (wm : WalletManager) (call : Call) : Prop :=
  (call.key pk wm).isSome ∧ call.disk.mkdirAll = .ok () ∧ writeSolanaKeypair call.disk = .ok ()

/-- The file holds the accounts. -/
def WalletManager.Synced (wm : WalletManager) : Prop := wm.file.accounts = wm.accounts

/-- No two accounts have the same public key. -/
def WalletManager.Distinct (wm : WalletManager) : Prop := (wm.accounts.map Account.publicKey).Nodup

/-- A generated key is not that of an account. -/
def Fresh (wm : WalletManager) : Call → Prop
  | .add (.ok key) _ _ => pk.base58 key.pub ∉ wm.accounts.map Account.publicKey
  | _ => True

section Calls

variable {pk} {wm : WalletManager} {call : Call}

/-- An account has the public key exactly if the search finds one. -/
theorem find_publicKey {accounts : List Account} {publicKey : String} :
    accounts.find? (fun acc => acc.publicKey = publicKey) = none ↔ publicKey ∉ accounts.map Account.publicKey := by
  rw [List.find?_eq_none, List.mem_map]
  constructor
  · rintro none ⟨acc, member, same⟩
    exact none acc member (decide_eq_true same)
  · intro none acc member same
    exact none ⟨acc, member, of_decide_eq_true same⟩

/-- With a key to manage the two calls go on in the same way, and without one they fail. -/
theorem perform_eq : (∃ key, call.key pk wm = some key ∧ call.perform pk wm = manageKey pk call.disk call.now key wm) ∨
    call.key pk wm = none ∧ ∃ account err, call.perform pk wm = ((account, some err), wm) := by
  cases call with
  | add generated disk now =>
    cases generated with
    | error err => exact Or.inr ⟨rfl, _, _, rfl⟩
    | ok key => exact Or.inl ⟨key, rfl, rfl⟩
  | importKeypair file disk now =>
    cases file with
    | error err => exact Or.inr ⟨rfl, _, _, rfl⟩
    | ok parsed =>
      simp only [Call.perform, Call.key, importSolanaKeypair, Except.bind]
      cases parseSolanaKeypairJSON parsed with
      | error err => exact Or.inr ⟨rfl, _, _, rfl⟩
      | ok key =>
        dsimp only [Except.toOption]
        cases found : wm.accounts.find? (fun acc => acc.publicKey = pk.base58 key.pub) with
        | none =>
          have fresh := find_publicKey.mp found
          exact Or.inl ⟨key, by rw [Option.filter_some, if_pos (decide_eq_true fresh)], rfl⟩
        | some acc =>
          have known : ¬ pk.base58 key.pub ∉ wm.accounts.map Account.publicKey := by
            intro fresh
            rw [find_publicKey.mpr fresh] at found
            cases found
          exact Or.inr ⟨by rw [Option.filter_some, if_neg (by simpa using known)], _, _, rfl⟩

/-- A call that does not get to saving fails and does nothing to the manager. -/
theorem perform_unsaved (unsaved : ¬ Saves pk wm call) : ∃ account err, call.perform pk wm = ((account, some err), wm) := by
  rcases @perform_eq pk wm call with ⟨key, found, same⟩ | ⟨_, failed⟩
  · rw [same, manageKey]
    cases made : call.disk.mkdirAll with
    | error err => exact ⟨_, _, rfl⟩
    | ok _ =>
      cases written : writeSolanaKeypair call.disk with
      | error err => exact ⟨_, _, rfl⟩
      | ok _ => exact absurd ⟨by rw [found]; rfl, made, written⟩ unsaved
  · exact failed

/-- What a call comes to that gets to saving. -/
theorem perform_saves (saves : Saves pk wm call) : ∃ key, call.key pk wm = some key ∧ call.perform pk wm =
    let account := newAccount pk wm.storageDir call.now key
    match saveAccounts call.disk.save { wm with accounts := wm.accounts ++ [account] } with
    | (.error err, wm) => (({}, some err), wm)
    | (.ok (), wm) => ((account, none), wm) := by
  obtain ⟨isSome, made, written⟩ := saves
  rcases @perform_eq pk wm call with ⟨key, found, same⟩ | ⟨none, _⟩
  · refine ⟨key, found, ?_⟩
    rw [same, manageKey, made, written]
  · rw [none] at isSome
    cases isSome

/-- At most one account is added, and that of the call's key. -/
theorem perform_accounts : (call.perform pk wm).2.accounts = wm.accounts ∨
    ∃ key, call.key pk wm = some key ∧
      (call.perform pk wm).2.accounts = wm.accounts ++ [newAccount pk wm.storageDir call.now key] := by
  by_cases saves : Saves pk wm call
  · obtain ⟨key, found, same⟩ := perform_saves saves
    refine Or.inr ⟨key, found, ?_⟩
    rw [same]
    dsimp only
    cases call.disk.save <;> rfl
  · obtain ⟨account, err, same⟩ := perform_unsaved saves
    exact Or.inl (by rw [same])

/-- A single call is atomic exactly if it does not get to a save that fails or whose file does not hold the accounts. -/
theorem atomic_iff : Atomic pk wm call ↔ (Saves pk wm call → call.disk.save = .written ∧ wm.Synced) := by
  by_cases saves : Saves pk wm call
  · obtain ⟨key, _, same⟩ := perform_saves saves
    rw [Atomic, same]
    have longer : wm.accounts ++ [newAccount pk wm.storageDir call.now key] ≠ wm.accounts := by simp
    cases saved : call.disk.save with
    | unmarshalled err =>
      constructor
      · exact fun same => absurd same longer
      · exact fun holds => Save.noConfusion (holds saves).1
    | unwritten err left =>
      constructor
      · exact fun same => absurd same longer
      · exact fun holds => Save.noConfusion (holds saves).1
    | written =>
      constructor
      · rintro ⟨_, _, gained⟩ _
        exact ⟨rfl, (List.append_cancel_right gained).symm⟩
      · intro holds
        have synced : wm.file.accounts = wm.accounts := (holds saves).2
        exact ⟨⟨key, rfl, rfl⟩, rfl, by rw [synced]; rfl⟩
  · obtain ⟨account, err, same⟩ := perform_unsaved saves
    rw [Atomic, same]
    exact ⟨fun _ reached => absurd reached saves, fun _ => rfl⟩

/-- After a save the file holds the accounts. -/
theorem perform_synced (saves : Saves pk wm call) (saved : call.disk.save = .written) : (call.perform pk wm).2.Synced := by
  obtain ⟨key, _, same⟩ := perform_saves saves
  rw [same, saved]
  rfl

end Calls

section Runs

variable {pk} {wm : WalletManager} {calls : List Call}

theorem perform_unsaved_manager {call : Call} (unsaved : ¬ Saves pk wm call) : (call.perform pk wm).2 = wm := by
  obtain ⟨account, err, same⟩ := perform_unsaved unsaved
  rw [same]

theorem along_atomic_iff : Along pk (Atomic pk) wm calls ↔
    Along pk (fun wm call => Saves pk wm call → call.disk.save = .written) wm calls ∧
      (¬ Along pk (fun wm call => ¬ Saves pk wm call) wm calls → wm.Synced) := by
  induction calls generalizing wm with
  | nil => exact ⟨fun _ => ⟨trivial, fun some => absurd trivial some⟩, fun _ => trivial⟩
  | cons call rest ih =>
    simp only [Along, ih, atomic_iff]
    by_cases saves : Saves pk wm call
    · constructor
      · rintro ⟨here, later, _⟩
        exact ⟨⟨fun reached => (here reached).1, later⟩, fun _ => (here saves).2⟩
      · rintro ⟨⟨here, later⟩, synced⟩
        exact ⟨fun reached => ⟨here reached, synced (fun none => none.1 saves)⟩, later, fun _ => perform_synced saves (here saves)⟩
    · rw [perform_unsaved_manager saves]
      constructor
      · rintro ⟨_, later, synced⟩
        exact ⟨⟨fun reached => absurd reached saves, later⟩, fun some => synced (fun none => some ⟨saves, none⟩)⟩
      · rintro ⟨⟨_, later⟩, synced⟩
        exact ⟨fun reached => absurd reached saves, later, fun some => synced (fun none => some none.2)⟩

/-- Whatever fails, no public key comes to be there twice. -/
theorem perform_distinct {call : Call} (distinct : wm.Distinct) (fresh : Fresh pk wm call) : (call.perform pk wm).2.Distinct := by
  rcases @perform_accounts pk wm call with same | ⟨key, found, same⟩
  · rw [WalletManager.Distinct, same]
    exact distinct
  · have new : pk.base58 key.pub ∉ wm.accounts.map Account.publicKey := by
      cases call with
      | add generated disk now =>
        cases generated with
        | error err => cases found
        | ok key' =>
          cases found
          exact fresh
      | importKeypair file disk now => simpa using (Option.filter_eq_some_iff.mp found).2
    rw [WalletManager.Distinct, same, List.map_append]
    exact List.Nodup.append distinct (List.nodup_singleton _) (by simpa [newAccount] using new)

theorem run_distinct (distinct : wm.Distinct) (fresh : Along pk (Fresh pk) wm calls) : (wm.run pk calls).Distinct := by
  induction calls generalizing wm with
  | nil => exact distinct
  | cons call rest ih => exact ih (perform_distinct distinct fresh.1) fresh.2

end Runs

/-- The calls of a run are all atomic exactly if none of them gets to a save that fails, and the file held the accounts
at the start if any gets to a save at all. No public key comes to be there twice in any run. -/
theorem accounts_atomic_iff (wm : WalletManager) (calls : List Call) :
    (Along pk (Atomic pk) wm calls ↔
      Along pk (fun wm call => Saves pk wm call → call.disk.save = .written) wm calls ∧
        (¬ Along pk (fun wm call => ¬ Saves pk wm call) wm calls → wm.Synced)) ∧
    (wm.Distinct → Along pk (Fresh pk) wm calls → (wm.run pk calls).Distinct) :=
  ⟨along_atomic_iff, run_distinct⟩

namespace FullDisk

def filled (b : UInt8) : PrivateKey := ⟨List.replicate 64 b, List.length_replicate⟩

/-- The public keys of the two keys, as `base58.Encode` has them. -/
def packages : Packages where
  base58 bs := if bs = List.replicate 32 0 then "11111111111111111111111111111111" else "4vJ9JU1bJJE96FWSJKvHsmmFADCg4gpZQff4P3bkLKi"
  join := "/".intercalate

def wallet : WalletManager := { storageDir := "/root/.config/opentela", accounts := [], file := .absent }

/-- The disk is full when it comes to the accounts file. -/
def failing : Call := .add (.ok (filled 0)) { save := .unwritten "no space left on device" .garbled } 0

def succeeding : Call := .add (.ok (filled 1)) {} 1

end FullDisk

open FullDisk in
/-- The account whose saving failed stays in the list, and the next save puts it into the file. -/
theorem accounts_half_done : ¬ Along packages (Atomic packages) wallet [failing] ∧
    (wallet.run packages [failing, succeeding]).file.accounts.map Account.publicKey =
      ["11111111111111111111111111111111", "4vJ9JU1bJJE96FWSJKvHsmmFADCg4gpZQff4P3bkLKi"] := by
  refine ⟨fun atomic => ?_, by decide +kernel⟩
  have written := (atomic_iff.mp atomic.1 ⟨rfl, rfl, rfl⟩).1
  exact Save.noConfusion written

end OpenTela.Wallet

import OpenTela.Solana.Encoding

namespace OpenTela.Solana

/-- What comes back of a request, if anything does. -/
inductive Reply (α : Type) where
  | lost (err : String)
  | status (code : ℕ)
  | undecodable (err : String)
  | rpcError (code : ℤ) (message : String)
  | result (a : α)

/-- `call`, with the look at the response's own error that follows every one of them. -/
def call {α : Type} : Reply α → Except String α
  | .lost err => .error ("failed to query Solana RPC: " ++ err)
  | .status code => .error s!"solana rpc returned status {code}"
  | .undecodable err => .error ("failed to decode Solana RPC response: " ++ err)
  | .rpcError code message => .error s!"solana rpc error ({code}): {message}"
  | .result a => .ok a

/-- A slice: its bytes, and those its capacity leaves behind them. -/
structure Slice where
  bytes : List UInt8
  spare : List UInt8

def Slice.reach (s : Slice) : List UInt8 := s.bytes ++ s.spare

abbrev PrivateKey := { bs : List UInt8 // bs.length = 64 }

abbrev Signature := { bs : List UInt8 // bs.length = 64 }

/-- `Public`: the second half of a private key. -/
def PrivateKey.pub (key : PrivateKey) : List UInt8 := key.1.drop 32

/-- The packages the client is built on. -/
structure Crypto where
  base58 : String → Except String Slice
  sha256 : List UInt8 → Key
  sign : PrivateKey → List UInt8 → Signature

variable (c : Crypto)

section Addresses

/-- Nothing is taken to be on the curve. -/
def isOnCurve (_ : List UInt8) : Bool := false

def createProgramAddress (seeds : List (List UInt8)) (programID : List UInt8) : Option Key :=
  let hash := c.sha256 (seeds.flatten ++ programID ++ "ProgramDerivedAddress".toUTF8.toList)
  if isOnCurve hash.1 then none else some hash

/-- The bumps that are left, from the highest down. -/
def findProgramAddress (seeds : List (List UInt8)) (programID : List UInt8) : ℕ → Except String Key
  | 0 => .error "could not find valid program address"
  | bump + 1 =>
    match createProgramAddress c (seeds ++ [[UInt8.ofNat bump]]) programID with
    | some candidate => .ok candidate
    | none => findProgramAddress seeds programID bump

def findATA (owner mint : List UInt8) : Except String Key :=
  if owner.length ≠ 32 ∨ mint.length ≠ 32 then .error "owner and mint must be 32 bytes"
  else (findProgramAddress c [owner, splTokenProgramID.1, mint] ataProgramID.1 256).mapError ("derive ATA: " ++ ·)

theorem findATA_key (owner mint : Key) : ∃ ata, findATA c owner.1 mint.1 = .ok ata := by
  unfold findATA
  rw [if_neg (by simp [owner.2, mint.2])]
  exact ⟨_, rfl⟩

end Addresses

/-- `SetString` in base ten. -/
def setString (s : String) : Option ℤ :=
  let digits (cs : List Char) : Option ℕ :=
    if cs ≠ [] ∧ cs.all Char.isDigit then some (cs.foldl (fun n d => 10 * n + (d.toNat - 48)) 0) else none
  match s.toList with
  | '-' :: cs => (digits cs).map (fun n => -(n : ℤ))
  | '+' :: cs => (digits cs).map (fun n => (n : ℤ))
  | cs => (digits cs).map (fun n => (n : ℤ))

/-- The reply lists the amounts of the owner's accounts. -/
def hasSPLToken (owner mint : String) (reply : Reply (List String)) : Except String Bool := do
  let _ ← (c.base58 owner).mapError ("invalid owner public key: " ++ ·)
  let _ ← (c.base58 mint).mapError ("invalid mint address: " ++ ·)
  let amounts ← call reply
  return amounts.any (fun amount => amount ≠ "" && (setString amount).any (0 < ·))

def getTokenBalance (owner mint : String) (reply : Reply (List String)) : Except String String := do
  let _ ← (c.base58 owner).mapError ("invalid owner public key: " ++ ·)
  let _ ← (c.base58 mint).mapError ("invalid mint address: " ++ ·)
  let amounts ← call reply
  return (amounts.find? (· ≠ "")).getD "0"

def getRecentBlockhash (reply : Reply String) : Except String Slice := do
  let blockhash ← call reply
  (c.base58 blockhash).mapError ("failed to decode blockhash: " ++ ·)

/-- One of the entries of a reply about signatures. -/
inductive StatusEntry where
  | null
  | malformed (err : String)
  | status (confirmationStatus : String) (err : Option String)

def getSignatureStatus (reply : Reply (List StatusEntry)) : Except String Bool := do
  match ← call reply with
  | [] => return false
  | .null :: _ => return false
  | .malformed err :: _ => throw ("parse signature status: " ++ err)
  | .status _ (some err) :: _ => throw ("transaction failed on-chain: " ++ err)
  | .status confirmationStatus none :: _ => return confirmationStatus = "confirmed" ∨ confirmationStatus = "finalized"

/-- The transactions the chain has executed. -/
abbrev Ledger := List (List UInt8)

/-- No transaction is executed a second time. -/
def Ledger.execute (ledger : Ledger) (tx : List UInt8) : Ledger := if tx ∈ ledger then ledger else ledger ++ [tx]

/-- What becomes of a transaction that is sent: whether the chain executes it, and what the sender
hears of it. -/
structure Submission where
  executed : Bool
  reply : Reply String

/-- What becomes of an attempt to send something: of the request for a blockhash, and of the
transaction. -/
structure Attempt where
  blockhash : Reply String
  submission : Submission

def serializeTransaction (signature : Signature) (message : List UInt8) : List UInt8 := [1] ++ signature.1 ++ message

/-- Signs a message and sends it. `none` is a message that could not be built. -/
def signAndSend (key : PrivateKey) (s : Submission) (ledger : Ledger) : Option (List UInt8) → Option (Except String String) × Ledger
  | none => (none, ledger)
  | some msg =>
    (some (call s.reply), if s.executed then ledger.execute (serializeTransaction (c.sign key msg) msg) else ledger)

def sendSPLTransfer (key : PrivateKey) (fromATA toATA mint : List UInt8) (amount : UInt64) (decimals : UInt8)
    (net : Attempt) (ledger : Ledger) : Option (Except String String) × Ledger :=
  match getRecentBlockhash c net.blockhash with
  | .error err => (some (.error ("get blockhash: " ++ err)), ledger)
  | .ok blockhash =>
    signAndSend c key net.submission ledger (buildSPLTransferChecked key.pub fromATA toATA mint amount decimals blockhash.reach)

def createATA (key : PrivateKey) (owner mint : List UInt8) (net : Attempt) (ledger : Ledger) : Option (Except String String) × Ledger :=
  match findATA c owner mint with
  | .error err => (some (.error err), ledger)
  | .ok ata =>
    match getRecentBlockhash c net.blockhash with
    | .error err => (some (.error ("get blockhash: " ++ err)), ledger)
    | .ok blockhash =>
      signAndSend c key net.submission ledger (buildCreateATAInstruction key.pub owner mint ata.1 blockhash.reach)

end OpenTela.Solana

import OpenTela.Server.Decisions
import Mathlib.Algebra.Order.Ring.Int
import Mathlib.Logic.Function.Basic

namespace OpenTela

/-- `strings.SplitN(s, sep, 2)`, if it has two parts. -/
def splitOnce (sep : Char) (s : String) : Option (String × String) :=
  match s.toList.dropWhile (fun c => c != sep) with
  | [] => none
  | _ :: rest => some (String.ofList (s.toList.takeWhile (fun c => c != sep)), String.ofList rest)

/-- `strings.EqualFold` with a word in which every letter has one other case only. -/
def equalFold (s word : String) : Bool := s.toList.map Char.toLower == word.toList.map Char.toLower

def atoi.digits : List Char → ℤ → Option ℤ
  | [], n => some n
  | c :: rest, n => if c.isDigit then digits rest (10 * n + (c.toNat - '0'.toNat : ℤ)) else none

/-- `strconv.Atoi`. -/
def atoi (s : String) : Option ℤ :=
  let number :=
    match s.toList with
    | [] | ['-'] | ['+'] => none
    | '-' :: rest => (atoi.digits rest 0).map Neg.neg
    | '+' :: rest => atoi.digits rest 0
    | rest => atoi.digits rest 0
  number.filter (fun n => decide (-2 ^ 63 ≤ n ∧ n < 2 ^ 63))

/-- `http.Header`: the values under each canonical name. -/
abbrev Header : Type := String → List String

def Header.empty : Header := fun _ => []

def Header.get (h : Header) (name : String) : String := (h name).headD ""

def Header.set (h : Header) (name value : String) : Header := Function.update h name [value]

def Header.del (h : Header) (name : String) : Header := Function.update h name []

/-- The characters of a header name; the last but two is the backtick. -/
def isTokenChar (c : Char) : Bool :=
  c.isAlphanum || c ∈ ['!', '#', '$', '%', '&', '*', '+', '-', '.', '^', '_', Char.ofNat 0x27, Char.ofNat 0x60, '|', '~']

def canonicalMIMEHeaderKey.loop : Bool → List Char → List Char
  | _, [] => []
  | upper, c :: rest => (if upper then c.toUpper else c.toLower) :: loop (c == '-') rest

def canonicalMIMEHeaderKey (name : String) : String :=
  if name.toList.all isTokenChar then String.ofList (canonicalMIMEHeaderKey.loop true name.toList) else name

/-- `textproto.TrimString`. -/
def trimString (s : String) : String :=
  let blank := fun c : Char => c == ' ' || c == '\t' || c == '\n' || c == '\r'
  String.ofList ((s.toList.dropWhile blank).rdropWhile blank)

def clientWalletHeader : String := "X-Otela-Client-Wallet"

def hopHeaders : List String :=
  ["Connection", "Proxy-Connection", "Keep-Alive", "Proxy-Authenticate", "Proxy-Authorization", "Te", "Trailer",
    "Transfer-Encoding", "Upgrade"]

/-- The names the `Connection` header lists. -/
def Header.connection (h : Header) : List String :=
  (h "Connection").flatMap (fun f =>
    (((f.toList.splitOn ',').map (fun part => trimString (String.ofList part))).filter (fun name => name ≠ "")).map
      canonicalMIMEHeaderKey)

def removeHopByHopHeaders (h : Header) : Header := (h.connection ++ hopHeaders).foldl Header.del h

/-- A request as a handler sees it, with the parameters of its route; `body` is what reading it gives. -/
structure Request where
  remoteAddr : String := ""
  host : String := ""
  path : String := ""
  header : Header := Header.empty
  body : Except String String := .ok ""
  peerId : String := ""
  region : String := ""
  service : String := ""

/-- `c.GetHeader`. -/
def Request.getHeader (r : Request) (name : String) : String := r.header.get name

/-- The same request with other values, or none, under the client wallet's header. -/
def Request.claiming (r : Request) (wallets : List String) : Request :=
  { r with header := Function.update r.header clientWalletHeader wallets }

/-- An answer to the client. -/
structure Reply where
  status : ℕ
  error : Message
  deriving DecidableEq

structure Target where
  scheme : String
  host : String
  path : String
  deriving DecidableEq

/-- What `httputil.ReverseProxy` sends for a request once the director is done with it, as far as
the headers of the client go. -/
def serveHTTP (director : Request → Request) (req : Request) : Request :=
  let out := director req
  { out with header := removeHopByHopHeaders out.header }

theorem foldl_del (names : List String) (h : Header) (name : String) :
    names.foldl Header.del h name = if name ∈ names then [] else h name := by
  induction names generalizing h with
  | nil => simp
  | cons first rest ih =>
    rw [List.foldl_cons, ih]
    by_cases later : name ∈ rest
    · simp [later]
    · by_cases same : name = first
      · subst same
        simp [Header.del]
      · simp [later, same, Header.del]

theorem clientWallet_endToEnd : clientWalletHeader ∉ hopHeaders := by decide

@[simp] theorem Request.claiming_self (r : Request) : r.claiming (r.header clientWalletHeader) = r := by
  simp [Request.claiming]

@[simp] theorem Request.claiming_peerId (r : Request) (wallets : List String) : (r.claiming wallets).peerId = r.peerId := rfl

@[simp] theorem Request.claiming_region (r : Request) (wallets : List String) : (r.claiming wallets).region = r.region := rfl

@[simp] theorem Request.claiming_path (r : Request) (wallets : List String) : (r.claiming wallets).path = r.path := rfl

@[simp] theorem Request.claiming_wallet (r : Request) (wallets : List String) :
    (r.claiming wallets).header clientWalletHeader = wallets := by
  simp [Request.claiming]

theorem Request.claiming_other (r : Request) (wallets : List String) {name : String} (other : name ≠ clientWalletHeader) :
    (r.claiming wallets).header name = r.header name := by
  simp [Request.claiming, Function.update_of_ne other]

theorem Request.claiming_getHeader (r : Request) (wallets : List String) {name : String} (other : name ≠ clientWalletHeader) :
    (r.claiming wallets).getHeader name = r.getHeader name := by
  rw [Request.getHeader, Header.get, r.claiming_other wallets other, Request.getHeader, Header.get]

theorem Header.connection_congr {h h' : Header} (same : h "Connection" = h' "Connection") : h.connection = h'.connection := by
  unfold Header.connection
  rw [same]

theorem Header.set_connection (h : Header) {name : String} (value : String) (other : "Connection" ≠ name) :
    (h.set name value).connection = h.connection := connection_congr (Function.update_of_ne other _ h)

theorem Request.claiming_connection (r : Request) (wallets : List String) :
    (r.claiming wallets).header.connection = r.header.connection := Header.connection_congr (r.claiming_other wallets (by decide))

end OpenTela

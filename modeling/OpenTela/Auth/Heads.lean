import OpenTela.Auth.Keys
import OpenTela.Server.Forwarding
import OpenTela.Lib.Crew

namespace OpenTela

open Prog Auth

structure AuthCacheEntry where
  wallet : String
  expires : ℤ

/-- The entries of an `authCache`. -/
abbrev AuthCache := Store String AuthCacheEntry

def AuthCache.get (c : AuthCache) (token : String) (now : ℤ) : Option String :=
  match c.lookup token with
  | none => none
  | some e => if e.expires < now then none else some e.wallet

def AuthCache.set (c : AuthCache) (token wallet : String) (now : ℤ) : AuthCache :=
  c.insert token { wallet, expires := now + 60 * second }

/-- The timeout of `legacyAuthHTTPClient`. -/
def legacyAuthTimeout : ℤ := 5 * second

/-- What a head does to its cache, and the requests that the auth server handles. -/
inductive TokenOp where
  | get (head : ℕ) (token : String)
  | post (token : String)
  | set (head : ℕ) (token wallet : String)
  | serve (call : Call)

def TokenOp.Res : TokenOp → Type
  | .get _ _ => Option String
  | .post _ => LegacyAnswer
  | .set _ _ _ | .serve _ => Unit

abbrev TokenM := Prog TokenOp TokenOp.Res Message

namespace TokenM

def get (head : ℕ) (token : String) : TokenM (Option String) := Prog.perform (TokenOp.get head token)
def post (token : String) : TokenM LegacyAnswer := Prog.perform (TokenOp.post token)
def set (head : ℕ) (token wallet : String) : TokenM Unit := Prog.perform (TokenOp.set head token wallet)

section Head

variable (setup : ServerSetup) (head : ℕ)

def verifyBearerToken (token : String) : TokenM String :=
  if setup.controlPlane.isControlPlaneEnabled then .ret ""
  else if setup.authURL = "" then .ret ""
  else do
    match ← get head token with
    | some wallet => .ret wallet
    | none =>
      match ← post token with
      | .unreachable => .fail { text := "auth server unreachable" }
      | .status code wallet =>
        if code = statusUnauthorized then .fail { text := "invalid or revoked token" }
        else if code ≠ statusOK then .fail { text := "auth server returned " ++ toString code }
        else
          match wallet with
          | none => .fail { text := "invalid auth response" }
          | some wallet => do
            set head token wallet
            .ret wallet

def resolveClientWallet (authHeader : String) : TokenM String :=
  match parseBearerToken authHeader with
  | .error _ => .ret ""
  | .ok token => do
    match ← (verifyBearerToken setup head token).attempt with
    | .error _ => .ret ""
    | .ok wallet => .ret wallet

end Head

end TokenM

/-- A request that comes to a head, and one that comes to the auth server. -/
inductive TokenTask where
  | request (head : ℕ) (authHeader : String)
  | call (call : Call)

/-- What a thread has been answered, and when. -/
structure Verified where
  token : String
  wallet : String
  time : ℤ

/-- A token that a head has taken for the wallet's, and when. -/
structure Resolution where
  head : ℕ
  token : String
  wallet : String
  time : ℤ

/-- The auth server with the calls it has handled so far, and the heads with their caches. -/
structure Realm where
  db : Database := {}
  calls : List (Call × ℤ) := []
  caches : ℕ → AuthCache := fun _ => ∅
  clock : ℤ := 0
  answers : ℕ → Option Verified := fun _ => none
  resolved : List Resolution := []

/-- The reading of the clock, and the answer to a `post` that the server's does not come back for. -/
structure TokenChoice where
  now : ℤ
  lost : Option LegacyAnswer := none

def LegacyAnswer.wallet : LegacyAnswer → Option String
  | .status code wallet => if code = statusOK then wallet else none
  | .unreachable => none

def LegacyAnswer.of : Except HTTPException VerifyResponse → LegacyAnswer
  | .ok r => .status statusOK (some r.wallet)
  | .error e => .status e.statusCode none

/-- One operation, at the time that the clock shows. An answer is read within the client's timeout, or else it is lost. -/
def TokenOp.apply (lib : Library) (i : ℕ) (lost : Option LegacyAnswer) : (o : TokenOp) → Realm → Option (o.Res × Realm)
  | .get head token, w =>
    let found := (w.caches head).get token w.clock
    some (found, { w with resolved := w.resolved ++ (found.map (fun wallet => ⟨head, token, wallet, w.clock⟩)).toList })
  | .post token, w =>
    match lost with
    | some answer => if answer.wallet = none then some (answer, w) else none
    | none =>
      let answer := LegacyAnswer.of (verifyToken lib token w.db)
      some (answer, { w with
        answers := Function.update w.answers i
          ((answer.wallet.map (fun wallet => ⟨token, wallet, w.clock⟩)).or (w.answers i)) })
  | .set head token wallet, w =>
    if (w.answers i).any (fun answer => answer.time + legacyAuthTimeout < w.clock) then none
    else
      some ((), { w with
        caches := Function.update w.caches head ((w.caches head).set token wallet w.clock)
        resolved := w.resolved ++ [⟨head, token, wallet, w.clock⟩] })
  | .serve call, w => some ((), { w with db := call.serve lib w.db, calls := w.calls ++ [(call, w.clock)] })

/-- Time goes on, and not back. -/
def TokenOp.exec (lib : Library) (i : ℕ) (choice : TokenChoice) (o : TokenOp) (w : Realm) : Option (o.Res × Realm) :=
  if choice.now < w.clock then none else o.apply lib i choice.lost { w with clock := choice.now }

/-- Any number of heads, and requests to them and to the auth server at once. -/
def tokenSystem (lib : Library) (setup : ServerSetup) : System TokenOp TokenOp.Res Message Realm TokenChoice TokenTask where
  exec := TokenOp.exec lib
  starts := fun _ => []
  body
    | .request head authHeader => (TokenM.resolveClientWallet setup head authHeader).bind (fun _ => .ret ())
    | .call call => Prog.perform (TokenOp.serve call)
  entry := fun _ => true

abbrev TokenCrew := Prog.Crew TokenOp TokenOp.Res Message Realm TokenTask

def TokenCrew.fresh : TokenCrew := ⟨{}, []⟩

/-- The token was good for the wallet at that time: its key had been granted by then to a request that the wallet had
signed, and was not revoked before. -/
def Vouched (lib : Library) (calls : List (Call × ℤ)) (token wallet : String) (time : ℤ) : Prop :=
  ∃ before v granted later, calls = before ++ (.create v, granted) :: later ∧
    (createKey lib v (served lib (before.map Prod.fst))).1.isOk = true ∧
    lib.verifyWalletSignature wallet v.req.signature v.req.challenge = true ∧
    lib.hashToken v.token = lib.hashToken token ∧ v.req.wallet = wallet ∧
    ∀ revoked, (Call.revoke v.keyId wallet, revoked) ∈ later → time ≤ revoked

section Vouched

variable {lib : Library} {calls : List (Call × ℤ)} {token wallet : String} {time now : ℤ}

theorem Vouched.append (vouched : Vouched lib calls token wallet time) (call : Call) (later : time ≤ now) :
    Vouched lib (calls ++ [(call, now)]) token wallet time := by
  obtain ⟨before, v, granted, rest, rfl, ok, signed, hash, owner, unrevoked⟩ := vouched
  refine ⟨before, v, granted, rest ++ [(call, now)], by simp, ok, signed, hash, owner, fun revoked member => ?_⟩
  rcases List.mem_append.mp member with old | new
  · exact unrevoked revoked old
  · obtain ⟨_, rfl⟩ := Prod.mk.inj (List.mem_singleton.mp new)
    exact later

/-- The server vouches for a token it accepts. -/
theorem vouched_of_verifyToken {r : VerifyResponse}
    (accepted : verifyToken lib token (served lib (calls.map Prod.fst)) = .ok r) : Vouched lib calls token r.wallet time := by
  obtain ⟨wallet, keyId⟩ := r
  obtain ⟨v, later, granted, hash, rfl, rfl, unrevoked⟩ := (verifyToken_iff lib (calls.map Prod.fst) token wallet keyId).mp accepted
  have signed := granted.signed
  obtain ⟨before, split, ok⟩ := granted
  obtain ⟨timed, rest, rfl, rfl, tail⟩ := List.map_eq_append_iff.mp split
  obtain ⟨⟨call, at'⟩, later', rfl, rfl, rfl⟩ := List.map_eq_cons_iff.mp tail
  exact ⟨timed, v, at', later', rfl, ok, signed, hash, rfl, fun revoked member =>
    absurd (List.mem_map_of_mem (f := Prod.fst) member) unrevoked⟩

end Vouched

/-- Whatever a head goes by has been vouched for at most a minute and a timeout before. -/
structure Realm.Sound (lib : Library) (w : Realm) : Prop where
  database : w.db = served lib (w.calls.map Prod.fst)
  answers : ∀ i a, w.answers i = some a → Vouched lib w.calls a.token a.wallet a.time ∧ a.time ≤ w.clock
  cached : ∀ head token e, (w.caches head).lookup token = some e →
    ∃ time, Vouched lib w.calls token e.wallet time ∧ time ≤ w.clock ∧ e.expires ≤ time + legacyAuthTimeout + 60 * second
  resolved : ∀ r ∈ w.resolved,
    ∃ time, Vouched lib w.calls r.token r.wallet time ∧ time ≤ w.clock ∧ r.time ≤ time + legacyAuthTimeout + 60 * second

/-- What a thread has been answered: the token and the wallet. -/
def Realm.account (w : Realm) (i : ℕ) : Option (String × String) := (w.answers i).map (fun a => (a.token, a.wallet))

def TokenOp.learn (k : Option (String × String)) : (o : TokenOp) → o.Res → Option (String × String)
  | .post token => fun (answer : LegacyAnswer) => (answer.wallet.map (fun wallet => (token, wallet))).or k
  | .get _ _ | .set _ _ _ | .serve _ => fun _ => k

theorem TokenOp.learn_post (k : Option (String × String)) (token : String) (answer : LegacyAnswer) :
    TokenOp.learn k (.post token) answer = (answer.wallet.map (fun wallet => (token, wallet))).or k := rfl

/-- A thread caches only what it has been answered. -/
def TokenOp.allowed (k : Option (String × String)) (_ : TokenTask) : TokenOp → Prop
  | .set _ token wallet => k = some (token, wallet)
  | _ => True

section Steps

variable {lib : Library} {w s : Realm} {i : ℕ}

theorem Realm.Sound.tick (sound : w.Sound lib) {now : ℤ} (later : w.clock ≤ now) : ({ w with clock := now } : Realm).Sound lib where
  database := sound.database
  answers := fun j a found => (sound.answers j a found).imp_right (fun past => past.trans later)
  cached := fun head token e found =>
    let ⟨time, vouched, past, expiry⟩ := sound.cached head token e found
    ⟨time, vouched, past.trans later, expiry⟩
  resolved := fun r member =>
    let ⟨time, vouched, past, bound⟩ := sound.resolved r member
    ⟨time, vouched, past.trans later, bound⟩

theorem Realm.Sound.resolve (sound : w.Sound lib) (new : List Resolution)
    (fine : ∀ r ∈ new, ∃ time, Vouched lib w.calls r.token r.wallet time ∧ time ≤ w.clock ∧
      r.time ≤ time + legacyAuthTimeout + 60 * second) : ({ w with resolved := w.resolved ++ new } : Realm).Sound lib :=
  { sound with resolved := fun r member => (List.mem_append.mp member).elim (sound.resolved r) (fine r) }

theorem Realm.Sound.get (sound : w.Sound lib) (head : ℕ) (token : String) : ({ w with
    resolved := w.resolved ++
      (((w.caches head).get token w.clock).map (fun wallet => ⟨head, token, wallet, w.clock⟩)).toList } : Realm).Sound lib := by
  refine sound.resolve _ (fun r member => ?_)
  obtain ⟨wallet, hit, rfl⟩ := Option.map_eq_some_iff.mp (Option.mem_toList.mp member)
  unfold AuthCache.get at hit
  split at hit
  · cases hit
  · rename_i e found
    split at hit
    · cases hit
    · rename_i alive
      cases hit
      obtain ⟨time, vouched, past, expiry⟩ := sound.cached head token e found
      exact ⟨time, vouched, past, (not_lt.mp alive).trans expiry⟩

theorem Realm.Sound.post (sound : w.Sound lib) {token wallet : String}
    (answered : (LegacyAnswer.of (verifyToken lib token w.db)).wallet = some wallet) :
    ({ w with answers := Function.update w.answers i (some ⟨token, wallet, w.clock⟩) } : Realm).Sound lib := by
  have vouched : Vouched lib w.calls token wallet w.clock := by
    rw [sound.database] at answered
    cases accepted : verifyToken lib token (served lib (w.calls.map Prod.fst)) with
    | error e =>
      rw [accepted] at answered
      simp [LegacyAnswer.of, LegacyAnswer.wallet] at answered
    | ok r =>
      have wallets : r.wallet = wallet := by simpa [accepted, LegacyAnswer.of, LegacyAnswer.wallet] using answered
      exact wallets ▸ vouched_of_verifyToken accepted
  refine { sound with answers := fun j a found => ?_ }
  replace found : Function.update w.answers i (some ⟨token, wallet, w.clock⟩) j = some a := found
  by_cases same : j = i
  · subst same
    rw [Function.update_self] at found
    cases found
    exact ⟨vouched, le_rfl⟩
  · rw [Function.update_of_ne same] at found
    exact sound.answers j a found

theorem Realm.Sound.set (sound : w.Sound lib) {token wallet : String} (head : ℕ) {answer : Verified}
    (answered : w.answers i = some answer) (same : answer.token = token ∧ answer.wallet = wallet)
    (timely : w.clock ≤ answer.time + legacyAuthTimeout) : ({ w with
      caches := Function.update w.caches head ((w.caches head).set token wallet w.clock)
      resolved := w.resolved ++ [⟨head, token, wallet, w.clock⟩] } : Realm).Sound lib := by
  obtain ⟨vouched, past⟩ := sound.answers i answer answered
  rw [same.1, same.2] at vouched
  have minute : (0 : ℤ) ≤ 60 * second := by decide
  refine { (sound.resolve [⟨head, token, wallet, w.clock⟩] (fun r member => ?_)) with
    cached := fun head' token' e found => ?_ }
  · obtain rfl := List.mem_singleton.mp member
    exact ⟨answer.time, vouched, past, by simp only; omega⟩
  · replace found :
        (Function.update w.caches head ((w.caches head).set token wallet w.clock) head').lookup token' = some e := found
    by_cases here : head' = head
    · subst here
      rw [Function.update_self] at found
      by_cases own : token' = token
      · subst own
        rw [AuthCache.set, AList.lookup_insert] at found
        cases found
        exact ⟨answer.time, vouched, past, by simp only; omega⟩
      · rw [AuthCache.set, AList.lookup_insert_ne own] at found
        exact sound.cached head' token' e found
    · rw [Function.update_of_ne here] at found
      exact sound.cached head' token' e found

theorem Realm.Sound.serve (sound : w.Sound lib) (call : Call) :
    ({ w with db := call.serve lib w.db, calls := w.calls ++ [(call, w.clock)] } : Realm).Sound lib where
  database := by
    simp only
    rw [List.map_append, List.map_singleton, served_append, sound.database]
  answers := fun j a found =>
    let ⟨vouched, past⟩ := sound.answers j a found
    ⟨vouched.append call past, past⟩
  cached := fun head token e found =>
    let ⟨time, vouched, past, expiry⟩ := sound.cached head token e found
    ⟨time, vouched.append call past, past, expiry⟩
  resolved := fun r member =>
    let ⟨time, vouched, past, bound⟩ := sound.resolved r member
    ⟨time, vouched.append call past, past, bound⟩

theorem Realm.Sound.apply (sound : w.Sound lib) {lost : Option LegacyAnswer} {task : TokenTask} {o : TokenOp} {r : o.Res}
    (allowed : o.allowed (w.account i) task) (applied : o.apply lib i lost w = some (r, s)) : s.Sound lib := by
  cases o with
  | get head token =>
    obtain ⟨_, rfl⟩ := Prod.mk.inj (Option.some.inj applied)
    exact sound.get head token
  | post token =>
    simp only [TokenOp.apply] at applied
    split at applied
    · split at applied
      · obtain ⟨_, rfl⟩ := Prod.mk.inj (Option.some.inj applied)
        exact sound
      · cases applied
    · obtain ⟨_, rfl⟩ := Prod.mk.inj (Option.some.inj applied)
      cases answered : (LegacyAnswer.of (verifyToken lib token w.db)).wallet with
      | none => simpa [answered] using sound
      | some wallet => simpa [answered] using sound.post (i := i) answered
  | set head token wallet =>
    simp only [TokenOp.apply] at applied
    split at applied
    · cases applied
    · rename_i timely
      obtain ⟨_, rfl⟩ := Prod.mk.inj (Option.some.inj applied)
      obtain ⟨answer, answered, same⟩ := Option.map_eq_some_iff.mp allowed
      rw [answered] at timely
      simp only [Option.any_some, decide_eq_true_eq, not_lt] at timely
      exact sound.set head answered (Prod.mk.inj same) timely
  | serve call =>
    obtain ⟨_, rfl⟩ := Prod.mk.inj (Option.some.inj applied)
    exact sound.serve call

end Steps

/-- What a thread does, by the account of its answers. -/
abbrev TokenOp.Orderly {α : Type} (task : TokenTask) (k : Option (String × String)) (p : TokenM α) : Prop :=
  Always (fun _ _ => True) TokenOp.learn (fun k o _ _ => TokenOp.allowed k task o) (fun _ _ => True) k p

theorem verifyBearerToken_orderly (setup : ServerSetup) (task : TokenTask) (head : ℕ) (token : String) (k : Option (String × String)) :
    TokenOp.Orderly task k (TokenM.verifyBearerToken setup head token) := by
  unfold TokenM.verifyBearerToken
  split
  · trivial
  · split
    · trivial
    · refine Always.step (fun found _ => ⟨trivial, ?_⟩)
      cases found with
      | some wallet => trivial
      | none =>
        refine Always.step (fun answer _ => ⟨trivial, ?_⟩)
        cases answer with
        | unreachable => trivial
        | status code wallet =>
          simp only
          split
          · trivial
          · split
            · trivial
            · rename_i ok
              cases wallet with
              | none => trivial
              | some wallet =>
                have told : (LegacyAnswer.status code (some wallet)).wallet = some wallet := by
                  simp [LegacyAnswer.wallet, not_not.mp ok]
                refine Always.step (fun _ _ => ⟨?_, trivial⟩)
                simp only [TokenOp.allowed, TokenOp.learn_post, told, Option.map_some, Option.some_or]

theorem resolveClientWallet_orderly (setup : ServerSetup) (task : TokenTask) (head : ℕ) (authHeader : String)
    (k : Option (String × String)) : TokenOp.Orderly task k (TokenM.resolveClientWallet setup head authHeader) := by
  unfold TokenM.resolveClientWallet
  split
  · trivial
  · rename_i token parsed
    refine Always.bind (Always.attempt ((verifyBearerToken_orderly setup task head token k).mono (fun _ _ _ _ _ fine => fine) ?_))
    rintro k (e | wallet) _ <;> trivial

theorem tokenSystem_orderly (lib : Library) (setup : ServerSetup) (task : TokenTask) :
    TokenOp.Orderly task none ((tokenSystem lib setup).body task) := by
  cases task with
  | request head authHeader =>
    refine Always.bind ((resolveClientWallet_orderly setup _ head authHeader none).mono (fun _ _ _ _ _ fine => fine) ?_)
    rintro k (e | wallet) _ <;> trivial
  | call call => exact Always.step (fun _ _ => ⟨trivial, trivial⟩)

section Runs

variable {lib : Library} {i : ℕ} {choice : TokenChoice} {o : TokenOp} {w s : Realm} {r : o.Res}

theorem TokenOp.exec_eq_some (executed : o.exec lib i choice w = some (r, s)) :
    w.clock ≤ choice.now ∧ o.apply lib i choice.lost { w with clock := choice.now } = some (r, s) := by
  unfold TokenOp.exec at executed
  split at executed
  · cases executed
  · rename_i onward
    exact ⟨not_lt.mp onward, executed⟩

/-- The books are kept: a thread's answers are those it has been given, and nobody writes down another's. -/
theorem TokenOp.exec_account (executed : o.exec lib i choice w = some (r, s)) :
    s.account i = o.learn (w.account i) r ∧ ∀ j, j ≠ i → s.account j = w.account j := by
  obtain ⟨_, applied⟩ := TokenOp.exec_eq_some executed
  cases o with
  | get | serve =>
    obtain ⟨rfl, rfl⟩ := Prod.mk.inj (Option.some.inj applied)
    exact ⟨rfl, fun _ _ => rfl⟩
  | set head token wallet =>
    simp only [TokenOp.apply] at applied
    split at applied
    · cases applied
    · obtain ⟨rfl, rfl⟩ := Prod.mk.inj (Option.some.inj applied)
      exact ⟨rfl, fun _ _ => rfl⟩
  | post token =>
    simp only [TokenOp.apply] at applied
    split at applied
    · split at applied
      · rename_i unanswered
        obtain ⟨rfl, rfl⟩ := Prod.mk.inj (Option.some.inj applied)
        refine ⟨?_, fun _ _ => rfl⟩
        simp only [TokenOp.learn_post, unanswered, Option.map_none, Option.none_or]
        rfl
      · cases applied
    · obtain ⟨rfl, rfl⟩ := Prod.mk.inj (Option.some.inj applied)
      refine ⟨?_, fun j other => ?_⟩
      · simp only [Realm.account, Function.update_self, TokenOp.learn_post]
        cases (LegacyAnswer.of (verifyToken lib token w.db)).wallet <;> simp
      · simp only [Realm.account, Function.update_of_ne other]

theorem TokenOp.post_answer {token : String} {answer : LegacyAnswer}
    (posted : TokenOp.exec lib i choice (.post token) w = some (answer, s)) :
    answer = choice.lost.getD (LegacyAnswer.of (verifyToken lib token w.db)) := by
  obtain ⟨_, applied⟩ := TokenOp.exec_eq_some posted
  simp only [TokenOp.apply] at applied
  split at applied
  · rename_i lost given
    rw [given, Option.getD_some]
    split at applied
    · exact (Prod.mk.inj (Option.some.inj applied)).1.symm
    · cases applied
  · rename_i given
    rw [given, Option.getD_none]
    exact (Prod.mk.inj (Option.some.inj applied)).1.symm

/-- On its own, the program is the function, with the head's cache and the auth server to answer it. -/
theorem TokenM.verifyBearerToken_run {setup : ServerSetup} {head : ℕ} {token : String} {out : Except Message String}
    (ran : (TokenM.verifyBearerToken setup head token).run (TokenOp.exec lib i choice) w = some (out, s)) :
    out = OpenTela.verifyBearerToken setup
      { cached := fun token => (w.caches head).get token choice.now
        verify := fun token => choice.lost.getD (LegacyAnswer.of (verifyToken lib token w.db)) } token := by
  unfold TokenM.verifyBearerToken at ran
  unfold OpenTela.verifyBearerToken
  split at ran
  · rename_i enabled
    obtain ⟨rfl, _⟩ := Prod.mk.inj (Option.some.inj ran)
    rw [if_pos enabled]
  · rename_i disabled
    rw [if_neg disabled]
    split at ran
    · rename_i nowhere
      obtain ⟨rfl, _⟩ := Prod.mk.inj (Option.some.inj ran)
      rw [if_pos nowhere]
    · rename_i somewhere
      rw [if_neg somewhere]
      obtain ⟨⟨found, u⟩, got, ran⟩ := Option.bind_eq_some_iff.mp ran
      obtain ⟨_, got⟩ := TokenOp.exec_eq_some got
      obtain ⟨rfl, rfl⟩ := Prod.mk.inj (Option.some.inj got)
      cases hit : (w.caches head).get token choice.now with
      | some wallet =>
        simp only [hit] at ran ⊢
        exact (Prod.mk.inj (Option.some.inj ran)).1.symm
      | none =>
        simp only [hit] at ran ⊢
        obtain ⟨⟨answer, u⟩, posted, ran⟩ := Option.bind_eq_some_iff.mp ran
        rw [← TokenOp.post_answer posted]
        cases answer with
        | unreachable => exact (Prod.mk.inj (Option.some.inj ran)).1.symm
        | status code wallet =>
          simp only [Prog.bind] at ran ⊢
          split at ran
          · rename_i refused
            rw [if_pos refused]
            exact (Prod.mk.inj (Option.some.inj ran)).1.symm
          · rename_i taken
            rw [if_neg taken]
            split at ran
            · rename_i failed
              rw [if_pos failed]
              exact (Prod.mk.inj (Option.some.inj ran)).1.symm
            · rename_i ok
              rw [if_neg ok]
              cases wallet with
              | none => exact (Prod.mk.inj (Option.some.inj ran)).1.symm
              | some wallet =>
                obtain ⟨_, _, ran⟩ := Option.bind_eq_some_iff.mp ran
                exact (Prod.mk.inj (Option.some.inj ran)).1.symm

end Runs

theorem Realm.sound_of_reach {lib : Library} {setup : ServerSetup} {c : TokenCrew}
    (reach : Crew.Reach (tokenSystem lib setup) Crew.Anyhow TokenCrew.fresh c) : c.state.Sound lib := by
  refine (reach.follows TokenOp.allowed Realm.account none
    (fun c => c.state.Sound lib) ?_ ⟨?_, ?_⟩ (fun task _ => tokenSystem_orderly lib setup task)
    (fun _ _ _ _ _ _ _ _ => trivial) ?_ ?_ ?_).1
  · exact ⟨rfl, fun _ _ found => (by cases found), fun _ _ _ found => (by simp [TokenCrew.fresh] at found),
      fun _ member => (by cases member)⟩
  · intro i t found
    simp [TokenCrew.fresh] at found
  · exact fun _ _ => rfl
  · exact fun _ _ _ _ _ _ _ executed => TokenOp.exec_account executed
  · exact fun _ _ sound => sound
  · intro c i choice task o next r s sound _ executed _ allowed
    obtain ⟨onward, applied⟩ := TokenOp.exec_eq_some executed
    exact (sound.tick onward).apply allowed applied

namespace Lapsing

theorem no_digits : ∀ c ∈ "".toList, c.isDigit ∨ ('a' ≤ c ∧ c ≤ 'f') := hex_digits (by decide +kernel)

def setup : ServerSetup where
  controlPlane := { url := "", token := "", digest := ⟨fun _ => "", fun _ => no_digits⟩ }
  authURL := "http://auth.local"
  routing := { json := ⟨fun _ _ => false, fun _ _ => none, fun _ _ => ""⟩ }

def reading (seconds : ℤ) : TokenChoice := { now := seconds * second }

/-- A key is created, used, revoked, and used once more. -/
def schedule : List (Crew.Move TokenChoice TokenTask) :=
  [.enter (.call (.create Reused.ahead)), .act 0 (reading 100),
    .enter (.request 0 "Bearer k1"), .act 1 (reading 101), .act 1 (reading 102), .act 1 (reading 103),
    .enter (.call (.revoke "k1" "w")), .act 2 (reading 104),
    .enter (.request 0 "Bearer k1"), .act 3 (reading 105)]

def crew : TokenCrew := TokenCrew.fresh.play (tokenSystem Reused.lib setup) (fun _ _ => true) schedule

end Lapsing

end OpenTela

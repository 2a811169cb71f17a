import DataLake.Foundation.Generator
import DataLake.RestApiSource

/-! The generator of the REST source, page after page, against a source that answers its
requests in any way: which pages it asks for, what it hands over and how it ends. -/

namespace DataLake

open Foundation

abbrev PageGenerator (α : Type) := Generator RunSig FetchResult Exc α

/-- One turn of the loop, from a page number and the pages yielded so far to the next ones. -/
def fetchTurn (config : RestApiConfig) (loads : Bytes → Except String Json) (maxPages : Int)
    (provider : Bool) (state : Int × Nat) : PageGenerator (Option (Int × Nat)) := do
  let (page, pagesYielded) := state
  let response ← Generator.lift (sendWithAuthRetry provider page)
  let step ← Generator.lift (orRaise (readPage config loads page response))
  match step.page with
  | some result => Generator.yield result
  | none => pure ()
  if step.stop then return none
  else if (pagesYielded : Int) + 1 ≥ maxPages then raiseError (pageLimitExceeded maxPages page)
  else return some (page + 1, pagesYielded + 1)

/-- `fetch` as the generator that it is. -/
def fetchGenerator (config : RestApiConfig) (loads : Bytes → Except String Json) (fuel : Nat)
    (cursor : Option Text) : PageGenerator Bool := do
  let (maxPages, startPage) ← Generator.lift (orRaise (config.validate.mapError Exc.dataLake))
  let page ← Generator.lift (orRaise (firstPage cursor startPage))
  let provider ← Generator.lift (orRaise (resolveAuthProvider config))
  Prog.loop (fetchTurn config loads maxPages provider) fuel (page, 0)

theorem validate_pos {config : RestApiConfig} {limits : Int × Int}
    (hvalid : config.validate = .ok limits) : 1 ≤ limits.1 := by
  obtain ⟨hmax, -⟩ := validate_ok hvalid
  cases hm : config.maxPages with
  | int n =>
    rw [hm, Json.positiveInt] at hmax
    split_ifs at hmax with hn
    rwa [← Option.some.inj hmax]
  | _ => simp [hm, Json.positiveInt] at hmax

/-! The loop of `fetch` with its consumer is this generator, consumed. -/

section Consumer

variable {σ : Type} {config : RestApiConfig} {loads : Bytes → Except String Json}
  {maxPages : Int} {provider : Bool} {consume : σ → FetchResult → RunProg σ}

theorem forEach_fetchTurn (page : Int) (pagesYielded : Nat) (s : σ) :
    Generator.forEach consume (fetchTurn config loads maxPages provider (page, pagesYielded)) s =
      sendWithAuthRetry provider page >>= fun response =>
      orRaise (readPage config loads page response) >>= fun step =>
      (match step.page with
        | some result => consume s result
        | none => pure s) >>= fun s =>
      if step.stop then .ret (none, s)
      else if (pagesYielded : Int) + 1 ≥ maxPages then raiseError (pageLimitExceeded maxPages page)
      else .ret (some (page + 1, pagesYielded + 1), s) := by
  simp only [fetchTurn, Generator.forEach_bind, Generator.forEach_lift, Prog.bind_assoc,
    Prog.ret_bind]
  refine congrArg (sendWithAuthRetry provider page >>= ·) (funext fun response => ?_)
  refine congrArg (orRaise (readPage config loads page response) >>= ·) (funext fun step => ?_)
  obtain ⟨page', stop⟩ := step
  have hend : ∀ s' : σ, Generator.forEach consume
      (if stop = true then pure none
        else if (pagesYielded : Int) + 1 ≥ maxPages then raiseError (pageLimitExceeded maxPages page)
        else pure (some (page + 1, pagesYielded + 1)) : PageGenerator (Option (Int × Nat))) s' =
      if stop then .ret (none, s')
      else if (pagesYielded : Int) + 1 ≥ maxPages then raiseError (pageLimitExceeded maxPages page)
      else .ret (some (page + 1, pagesYielded + 1), s') := by
    intro s'
    split_ifs <;> rfl
  cases page' with
  | none => exact hend s
  | some result =>
    simp only [Generator.forEach_bind, Generator.forEach_yield, Prog.bind_assoc, Prog.ret_bind, hend]

theorem fetchPages_forEach (remaining fuel : Nat) (page : Int) (pagesYielded : Nat) (s : σ)
    (hremaining : maxPages = pagesYielded + 1 + remaining) (hfuel : remaining < fuel) :
    Generator.forEach consume (Prog.loop (fetchTurn config loads maxPages provider) fuel
      (page, pagesYielded)) s =
      fetchPages config loads maxPages provider consume remaining page s >>= fun s =>
        .ret (true, s) := by
  induction remaining generalizing fuel page pagesYielded s with
  | zero =>
    obtain ⟨fuel, rfl⟩ := Nat.exists_eq_succ_of_ne_zero (Nat.ne_zero_of_lt hfuel)
    have hlimit : (pagesYielded : Int) + 1 ≥ maxPages := by omega
    rw [Prog.loop, Generator.forEach_bind, forEach_fetchTurn, fetchPages]
    simp only [if_pos hlimit, Prog.bind_assoc]
    refine congrArg (sendWithAuthRetry provider page >>= ·) (funext fun response => ?_)
    refine congrArg (orRaise (readPage config loads page response) >>= ·) (funext fun step => ?_)
    obtain ⟨page', _ | _⟩ := step <;> cases page' with
    | none => rfl
    | some result =>
      simp only [Prog.bind_assoc]
      rfl
  | succ remaining ih =>
    obtain ⟨fuel, rfl⟩ := Nat.exists_eq_succ_of_ne_zero (Nat.ne_zero_of_lt hfuel)
    have hlimit : ¬ (pagesYielded : Int) + 1 ≥ maxPages := by omega
    have hnext : ∀ s', Generator.forEach consume (Prog.loop (fetchTurn config loads maxPages provider)
        fuel (page + 1, pagesYielded + 1)) s' =
        fetchPages config loads maxPages provider consume remaining (page + 1) s' >>= fun s =>
          .ret (true, s) := fun s' =>
      ih fuel (page + 1) (pagesYielded + 1) s' (by push_cast; omega) (by omega)
    rw [Prog.loop, Generator.forEach_bind, forEach_fetchTurn, fetchPages]
    simp only [if_neg hlimit, Prog.bind_assoc]
    refine congrArg (sendWithAuthRetry provider page >>= ·) (funext fun response => ?_)
    refine congrArg (orRaise (readPage config loads page response) >>= ·) (funext fun step => ?_)
    obtain ⟨page', stop⟩ := step
    cases stop with
    | true =>
      cases page' with
      | none => rfl
      | some result =>
        simp only [Prog.bind_assoc]
        rfl
    | false =>
      cases page' with
      | none => exact hnext s
      | some result =>
        simp only [Prog.bind_assoc]
        exact congrArg (consume s result >>= ·) (funext hnext)

theorem fetch_eq_forEach {limits : Int × Int} (hvalid : config.validate = .ok limits) (fuel : Nat)
    (hfuel : limits.1.toNat ≤ fuel) (cursor : Option Text) (s : σ) :
    Generator.forEach consume (fetchGenerator config loads fuel cursor) s =
      fetch config loads cursor consume s >>= fun s => .ret (true, s) := by
  have hpos := validate_pos hvalid
  unfold fetchGenerator fetch
  simp only [Generator.forEach_bind, Generator.forEach_lift, Prog.bind_assoc, Prog.ret_bind, hvalid,
    Except.mapError, orRaise_ok]
  refine congrArg (orRaise (firstPage cursor limits.2) >>= ·) (funext fun page => ?_)
  refine congrArg (orRaise (resolveAuthProvider config) >>= ·) (funext fun provider => ?_)
  exact fetchPages_forEach _ fuel page 0 s (by push_cast; omega) (by omega)

end Consumer

/-! The source. -/

/-- What a request comes to: a response, or what stops it on the way. -/
inductive Answer where
  | response (r : Response)
  | timeout (message : String)
  | networkError (message : String)
  | blocked (message : String)
  | authentication (message : String)
  | configuration (message : String)
  | other (message : String)

/-- `_send`, for what the client and the auth provider make of a request. -/
def Answer.sent : Answer → Except Exc Response
  | response r => .ok r
  | timeout message =>
    .error (.dataLake (fetchFailed s!"timeout calling source: {message}" true))
  | networkError message =>
    .error (.dataLake (fetchFailed s!"network error calling source: {message}" true))
  | blocked message => .error (.dataLake (outboundRequestBlocked message))
  | authentication message => .error (.dataLake ⟨message, false, "AuthenticationError"⟩)
  | configuration message => .error (.dataLake (configurationError message))
  | other message => .error (.other message)

/-- The source answers the requests in the order they come. -/
def sourceExec (answers : Nat → Answer) : Exec RunSig Unit Nat
  | .send _, _, n => some ((answers n).sent, n + 1)
  | _, _, _ => none

/-- In the world of the generator every call is noted. -/
abbrev pageExec (answers : Nat → Answer) :
    Exec (RunSig.yielding FetchResult) Unit (Nat × List (RunOp ⊕ FetchResult)) :=
  (Generator.exec (sourceExec answers)).noting some

def requests (trace : List (RunOp ⊕ FetchResult)) : List Int := trace.filterMap fun
  | .inl (.send page) => some page
  | _ => none

def yields (trace : List (RunOp ⊕ FetchResult)) : List FetchResult := trace.filterMap fun
  | .inr result => some result
  | _ => none

/-- How often the page is asked for whose first answer has the index `n`. -/
def tries (answers : Nat → Answer) (provider : Bool) (n : Nat) : Nat :=
  match (answers n).sent with
  | .ok r => if (r.status = 401 ∨ r.status = 403) ∧ provider then 2 else 1
  | .error _ => 1

def offset (answers : Nat → Answer) (provider : Bool) : Nat → Nat
  | 0 => 0
  | k + 1 => offset answers provider k + tries answers provider (offset answers provider k)

/-- The response for the page that is `k` pages after the first, when it is a good one. -/
def received (answers : Nat → Answer) (provider : Bool) (k : Nat) : Except Exc Response :=
  let n := offset answers provider k
  (answers (n + tries answers provider n - 1)).sent >>= checkStatus

section Loop

variable {config : RestApiConfig} {loads : Bytes → Except String Json} {maxPages : Int}
  {provider : Bool} {answers : Nat → Answer} {trace : List (RunOp ⊕ FetchResult)}

theorem eval_orRaise {α : Type} (x : Except Exc α) (w : Nat × List (RunOp ⊕ FetchResult)) :
    (Generator.lift (orRaise x) : PageGenerator α).eval (pageExec answers) (fun _ => ()) w =
      some (x, w) := by
  cases x <;> rfl

theorem eval_send (page : Int) (n : Nat) :
    (Generator.lift (send page) : PageGenerator Response).eval (pageExec answers) (fun _ => ())
      (n, trace) = some ((answers n).sent, (n + 1, trace ++ [.inl (.send page)])) := by
  cases h : (answers n).sent <;>
    simp [send, Generator.lift, runCall, orRaise, Prog.ofExcept, Prog.perform, Prog.bind_eq,
      Prog.embed, Prog.eval, Exec.noting, Generator.exec, sourceExec, h]

theorem eval_sendWithAuthRetry (page : Int) (k : Nat) :
    (Generator.lift (sendWithAuthRetry provider page) : PageGenerator Response).eval
      (pageExec answers) (fun _ => ()) (offset answers provider k, trace) =
      some (received answers provider k, (offset answers provider (k + 1),
        trace ++ List.replicate (tries answers provider (offset answers provider k))
          (.inl (.send page)))) := by
  unfold sendWithAuthRetry
  rw [Generator.lift_bind, Prog.eval_bind, eval_send]
  simp only [offset, received]
  generalize offset answers provider k = n
  cases h : (answers n).sent with
  | error e =>
    simp only [tries, h, Option.bind_some, Nat.add_sub_cancel]
    rfl
  | ok r =>
    simp only [tries, h, Option.bind_some]
    split_ifs with hretry
    · rw [Generator.lift_bind, Prog.eval_bind, eval_send]
      simp only [Option.bind_some, show n + 2 - 1 = n + 1 from rfl]
      cases hsent : (answers (n + 1)).sent with
      | error e => simp [bind, Except.bind, List.replicate_succ]
      | ok r' => simp [bind, Except.bind, List.replicate_succ, eval_orRaise]
    · simp only [Nat.add_sub_cancel, h]
      exact eval_orRaise _ _

end Loop

def recordsOf (config : RestApiConfig) (loads : Bytes → Except String Json) (response : Response) :
    Except Exc (List Json) := do
  let data ← parseJson loads response.body
  extractRecords data config.records

def RestApiConfig.short (config : RestApiConfig) (records : List Json) : Bool :=
  config.pageSize.any fun size => (records.length : Rat) < size

def pageOf (config : RestApiConfig) (page : Int) (response : Response) (records : List Json) :
    Option FetchResult :=
  if records.isEmpty then
    if config.retainEmptyTerminalPage then some (fetchResult config page response [] none) else none
  else some (fetchResult config page response records
    (if config.short records then none else some (str (page + 1))))

theorem readPage_eq (config : RestApiConfig) (loads : Bytes → Except String Json) (page : Int)
    (response : Response) : readPage config loads page response =
      (recordsOf config loads response).map fun records =>
        ⟨pageOf config page response records, records.isEmpty || config.short records⟩ := by
  unfold readPage recordsOf
  cases parseJson loads response.body with
  | error e => rfl
  | ok data =>
    cases hrecords : extractRecords data config.records with
    | error e => simp [bind, Except.bind, Except.map, hrecords]
    | ok records =>
      simp only [bind, Except.bind, Except.map, hrecords, pageOf, RestApiConfig.short, pure,
        Except.pure]
      split_ifs with hempty hretain hshort
      · simp [hempty]
      · simp [hempty]
      · simp [hempty, hshort]
      · simp [hempty, hshort]

section Pages

variable (config : RestApiConfig) (loads : Bytes → Except String Json) (answers : Nat → Answer)
  (provider : Bool) (page : Int)

/-- The records of the page that is `k` pages after the first. -/
def recordsAt (k : Nat) : Except Exc (List Json) :=
  received answers provider k >>= recordsOf config loads

/-- A page that says that more may follow. -/
def Full (k : Nat) : Prop :=
  ∃ records, recordsAt config loads answers provider k = .ok records ∧ records ≠ [] ∧
    config.short records = false

/-- A page that ends the data. -/
def Ends (k : Nat) : Prop :=
  ∃ records, recordsAt config loads answers provider k = .ok records ∧
    (records = [] ∨ config.short records = true)

/-- What is made of that page: itself, unless it is empty; an empty one when those are
retained; of any other response nothing. -/
def handedOver (k : Nat) : List FetchResult :=
  match received answers provider k with
  | .ok response =>
    match recordsOf config loads response with
    | .ok records => (pageOf config (page + k) response records).toList
    | .error _ => []
  | .error _ => []

def turnTrace (k : Nat) : List (RunOp ⊕ FetchResult) :=
  List.replicate (tries answers provider (offset answers provider k)) (.inl (.send (page + k))) ++
    (handedOver config loads answers provider page k).map .inr

/-- How the generator ends when it goes no further than that page. -/
def ending (maxPages : Int) (k : Nat) : Except Exc Bool :=
  match recordsAt config loads answers provider k with
  | .error e => .error e
  | .ok records =>
    if records.isEmpty || config.short records then .ok true
    else .error (.dataLake (pageLimitExceeded maxPages (page + k)))

end Pages

section Turns

variable {config : RestApiConfig} {loads : Bytes → Except String Json} {maxPages : Int}
  {provider : Bool} {answers : Nat → Answer} {trace : List (RunOp ⊕ FetchResult)} {page : Int}

theorem eval_yield (result : FetchResult) (n : Nat) :
    (Generator.yield result : PageGenerator Unit).eval (pageExec answers) (fun _ => ()) (n, trace) =
      some (.ok (), (n, trace ++ [.inr result])) := rfl

theorem eval_fetchTurn (k pagesYielded : Nat) :
    (fetchTurn config loads maxPages provider (page + k, pagesYielded)).eval (pageExec answers)
      (fun _ => ()) (offset answers provider k, trace) =
      some (match recordsAt config loads answers provider k with
        | .error e => .error e
        | .ok records =>
          if records.isEmpty || config.short records then .ok none
          else if (pagesYielded : Int) + 1 ≥ maxPages then
            .error (.dataLake (pageLimitExceeded maxPages (page + k)))
          else .ok (some (page + k + 1, pagesYielded + 1)),
        (offset answers provider (k + 1),
          trace ++ turnTrace config loads answers provider page k)) := by
  unfold fetchTurn
  dsimp only
  rw [Prog.eval_bind, eval_sendWithAuthRetry]
  simp only [recordsAt, turnTrace, handedOver, Option.bind_some]
  cases received answers provider k with
  | error e => simp [bind, Except.bind]
  | ok response =>
    dsimp only
    rw [Prog.eval_bind, eval_orRaise, readPage_eq]
    cases hrecords : recordsOf config loads response with
    | error e => simp [bind, Except.bind, Except.map, hrecords]
    | ok records =>
      have hend : ∀ w, (if (records.isEmpty || config.short records) = true then pure none
          else if (pagesYielded : Int) + 1 ≥ maxPages then
            raiseError (pageLimitExceeded maxPages (page + k))
          else pure (some (page + k + 1, pagesYielded + 1)) :
            PageGenerator (Option (Int × Nat))).eval (pageExec answers) (fun _ => ()) w =
          some (if (records.isEmpty || config.short records) = true then .ok none
            else if (pagesYielded : Int) + 1 ≥ maxPages then
              .error (.dataLake (pageLimitExceeded maxPages (page + k)))
            else .ok (some (page + k + 1, pagesYielded + 1)), w) := by
        intro w
        split_ifs <;> rfl
      simp only [Except.map, Option.bind_some]
      cases pageOf config (page + k) response records with
      | none =>
        refine (hend _).trans ?_
        simp [bind, Except.bind, hrecords]
      | some result =>
        rw [Prog.eval_bind, eval_yield, Option.bind_some]
        refine (hend _).trans ?_
        simp [bind, Except.bind, hrecords]

theorem not_full_of_error {k : Nat} {e : Exc}
    (h : recordsAt config loads answers provider k = .error e) :
    ¬ Full config loads answers provider k := by
  rintro ⟨records, hrecords, -⟩
  rw [h] at hrecords
  cases hrecords

theorem not_full_of_ends {k : Nat} (h : Ends config loads answers provider k) :
    ¬ Full config loads answers provider k := by
  rintro ⟨records, hrecords, hne, hshort⟩
  obtain ⟨records', hrecords', hends⟩ := h
  rw [hrecords] at hrecords'
  obtain rfl := Except.ok.inj hrecords'
  rcases hends with rfl | hends
  · exact hne rfl
  · rw [hshort] at hends
    cases hends

theorem ends_iff {records : List Json} :
    (records.isEmpty || config.short records) = true ↔
      records = [] ∨ config.short records = true := by
  rw [Bool.or_eq_true, List.isEmpty_iff]

theorem full_iff {records : List Json} :
    (records.isEmpty || config.short records) = false ↔
      records ≠ [] ∧ config.short records = false := by
  rw [Bool.or_eq_false_iff, ← Bool.not_eq_true, List.isEmpty_iff]

/-- The loop from the page that is `k` pages after the first, when `n` more may follow it. -/
theorem eval_loop {m : Nat} (hm : maxPages = m) (n : Nat) :
    ∀ (k fuel : Nat) (trace : List (RunOp ⊕ FetchResult)), k + n + 1 = m → n < fuel →
    ∃ j, k ≤ j ∧ j < m ∧ (∀ i, k ≤ i → i < j → Full config loads answers provider i) ∧
      (Full config loads answers provider j → j + 1 = m) ∧
      (Prog.loop (fetchTurn config loads maxPages provider) fuel (page + k, k)).eval
        (pageExec answers) (fun _ => ()) (offset answers provider k, trace) =
        some (ending config loads answers provider page maxPages j,
          (offset answers provider (j + 1),
            trace ++ (List.range' k (j + 1 - k)).flatMap
              (turnTrace config loads answers provider page))) := by
  induction n with
  | zero =>
    intro k fuel trace hk hfuel
    obtain ⟨fuel, rfl⟩ := Nat.exists_eq_succ_of_ne_zero (Nat.ne_zero_of_lt hfuel)
    refine ⟨k, le_rfl, by omega, fun i _ _ => by omega, fun _ => hk, ?_⟩
    have hlimit : (k : Int) + 1 ≥ maxPages := by omega
    rw [Prog.loop, Prog.eval_bind, eval_fetchTurn, ending, Nat.add_sub_cancel_left]
    cases recordsAt config loads answers provider k with
    | error e => simp
    | ok records =>
      dsimp only
      rw [if_pos hlimit]
      split_ifs <;> simp [Prog.eval]
  | succ n ih =>
    intro k fuel trace hk hfuel
    obtain ⟨fuel, rfl⟩ := Nat.exists_eq_succ_of_ne_zero (Nat.ne_zero_of_lt hfuel)
    have hlimit : ¬ (k : Int) + 1 ≥ maxPages := by omega
    rw [Prog.loop, Prog.eval_bind, eval_fetchTurn]
    cases hrecords : recordsAt config loads answers provider k with
    | error e =>
      refine ⟨k, le_rfl, by omega, fun i _ _ => by omega,
        fun hfull => absurd hfull (not_full_of_error hrecords), ?_⟩
      rw [ending, hrecords, Nat.add_sub_cancel_left]
      simp
    | ok records =>
      cases hends : records.isEmpty || config.short records with
      | true =>
        have h : Ends config loads answers provider k := ⟨records, hrecords, ends_iff.mp hends⟩
        refine ⟨k, le_rfl, by omega, fun i _ _ => by omega,
          fun hfull => absurd hfull (not_full_of_ends h), ?_⟩
        rw [ending, hrecords, Nat.add_sub_cancel_left]
        simp [hends, Prog.eval]
      | false =>
        have hfull : Full config loads answers provider k :=
          ⟨records, hrecords, full_iff.mp hends⟩
        obtain ⟨j, hkj, hjm, hall, hlast, heval⟩ := ih (k + 1) fuel
          (trace ++ turnTrace config loads answers provider page k) (by omega) (by omega)
        refine ⟨j, by omega, hjm, fun i hki hij => ?_, hlast, ?_⟩
        · rcases Nat.eq_or_lt_of_le hki with rfl | hlt
          · exact hfull
          · exact hall i hlt hij
        · have hrange : List.range' k (j + 1 - k) = k :: List.range' (k + 1) (j + 1 - (k + 1)) := by
            rw [show j + 1 - k = (j + 1 - (k + 1)) + 1 by omega, List.range'_succ]
          simp only [hends, Bool.false_eq_true, if_false, if_neg hlimit, Option.bind_some]
          rw [hrange, List.flatMap_cons, ← List.append_assoc, ← heval, Int.add_assoc]
          push_cast
          rfl

/-! What the trace of the whole run says. -/

theorem requests_append (a b : List (RunOp ⊕ FetchResult)) :
    requests (a ++ b) = requests a ++ requests b := List.filterMap_append

theorem yields_append (a b : List (RunOp ⊕ FetchResult)) :
    yields (a ++ b) = yields a ++ yields b := List.filterMap_append

theorem requests_turnTrace (k : Nat) :
    requests (turnTrace config loads answers provider page k) =
      List.replicate (tries answers provider (offset answers provider k)) (page + k) := by
  have hsends : ∀ n, requests (List.replicate n (.inl (.send (page + k)))) =
      List.replicate n (page + k) := fun n => by simp [requests]
  have hyields : ∀ results : List FetchResult, requests (results.map .inr) = [] := fun results => by
    simp [requests]
  rw [turnTrace, requests_append, hsends, hyields, List.append_nil]

theorem yields_turnTrace (k : Nat) :
    yields (turnTrace config loads answers provider page k) =
      handedOver config loads answers provider page k := by
  have hsends : ∀ n, yields (List.replicate n (.inl (.send (page + k)))) = [] := fun n => by simp [yields]
  have hyields : ∀ results : List FetchResult, yields (results.map .inr) = results :=
    fun results => List.filterMap_map.trans List.filterMap_some
  rw [turnTrace, yields_append, hsends, hyields, List.nil_append]

theorem requests_flatMap (ks : List Nat) :
    requests (ks.flatMap (turnTrace config loads answers provider page)) = ks.flatMap fun k =>
      List.replicate (tries answers provider (offset answers provider k)) (page + k) := by
  induction ks with
  | nil => rfl
  | cons k ks ih =>
    rw [List.flatMap_cons, List.flatMap_cons, requests_append, requests_turnTrace, ih]

theorem yields_flatMap (ks : List Nat) :
    yields (ks.flatMap (turnTrace config loads answers provider page)) =
      ks.flatMap (handedOver config loads answers provider page) := by
  induction ks with
  | nil => rfl
  | cons k ks ih => rw [List.flatMap_cons, List.flatMap_cons, yields_append, yields_turnTrace, ih]

theorem tries_le (n : Nat) : tries answers provider n = 1 ∨ tries answers provider n = 2 := by
  unfold tries
  split
  · split_ifs
    · exact .inr rfl
    · exact .inl rfl
  · exact .inl rfl

def Exc.isPageLimit : Exc → Bool
  | .dataLake e => e.category = "PageLimitExceededError"
  | .other _ => false

theorem sent_not_pageLimit (answer : Answer) {e : Exc} (h : answer.sent = .error e) :
    e.isPageLimit = false := by
  cases answer <;> cases h <;> rfl

/-- Of the errors of `fetch` only its own is about the page limit. -/
theorem recordsAt_not_pageLimit {k : Nat} {e : Exc}
    (h : recordsAt config loads answers provider k = .error e) : e.isPageLimit = false := by
  unfold recordsAt at h
  cases hreceived : received answers provider k with
  | error e' =>
    rw [hreceived] at h
    obtain rfl : e' = e := Except.error.inj h
    unfold received at hreceived
    dsimp only at hreceived
    generalize hsent : (answers _).sent = sent at hreceived
    cases sent with
    | error e'' =>
      obtain rfl : e'' = e' := Except.error.inj hreceived
      exact sent_not_pageLimit _ hsent
    | ok response =>
      change checkStatus response = _ at hreceived
      unfold checkStatus at hreceived
      split_ifs at hreceived <;> cases hreceived <;> rfl
  | ok response =>
    rw [hreceived] at h
    change recordsOf config loads response = _ at h
    unfold recordsOf parseJson at h
    cases hloads : loads response.body with
    | error message =>
      rw [hloads] at h
      cases h
      rfl
    | ok data =>
      rw [hloads] at h
      change extractRecords data config.records = _ at h
      unfold extractRecords at h
      split at h
      · cases h
      · split at h <;> cases h <;> rfl
      · cases h
        rfl

theorem handedOver_full {k : Nat} (h : Full config loads answers provider k) :
    ∃ result, handedOver config loads answers provider page k = [result] ∧
      result.nextCursor = some (str (page + k + 1)) := by
  obtain ⟨records, hrecords, hne, hshort⟩ := h
  unfold recordsAt at hrecords
  cases hreceived : received answers provider k with
  | error e =>
    rw [hreceived] at hrecords
    cases hrecords
  | ok response =>
    rw [hreceived] at hrecords
    have hof : recordsOf config loads response = .ok records := hrecords
    have hempty : ¬ records.isEmpty = true := by rwa [List.isEmpty_iff]
    have hpage : handedOver config loads answers provider page k =
        [fetchResult config (page + k) response records (some (str (page + k + 1)))] := by
      simp only [handedOver, hreceived, hof, pageOf, hshort, if_neg hempty, Bool.false_eq_true,
        if_false, Option.toList_some]
    exact ⟨_, hpage, rfl⟩

theorem length_yields_full (ks : List Nat)
    (h : ∀ k ∈ ks, Full config loads answers provider k) :
    (ks.flatMap (handedOver config loads answers provider page)).length = ks.length := by
  induction ks with
  | nil => rfl
  | cons k ks ih =>
    obtain ⟨result, hresult, -⟩ := @handedOver_full _ _ _ _ page _ (h k List.mem_cons_self)
    rw [List.flatMap_cons, hresult, List.singleton_append, List.length_cons, List.length_cons,
      ih fun k' hk' => h k' (List.mem_cons_of_mem _ hk')]

end Turns

/-- How the generator behaves from a first page and with a limit of `m` pages. -/
structure Paginates (config : RestApiConfig) (loads : Bytes → Except String Json)
    (answers : Nat → Answer) (provider : Bool) (page : Int) (m : Nat) (out : Except Exc Bool)
    (trace : List (RunOp ⊕ FetchResult)) : Prop where
  /-- At most `m` consecutive pages are asked for, and what came is handed over in order. -/
  asked : ∃ j, 1 ≤ j ∧ j ≤ m ∧
    requests trace = (List.range j).flatMap (fun k =>
      List.replicate (tries answers provider (offset answers provider k)) (page + k)) ∧
    yields trace = (List.range j).flatMap (handedOver config loads answers provider page)
  twice : ∀ n, tries answers provider n = 1 ∨ tries answers provider n = 2
  ended : out = .ok true ↔ ∃ k < m, (∀ i < k, Full config loads answers provider i) ∧
    Ends config loads answers provider k
  limited : (∃ e, out = .error e ∧ e.isPageLimit = true) ↔
    ∀ i < m, Full config loads answers provider i
  complete : (∀ i < m, Full config loads answers provider i) → (yields trace).length = m ∧
    ∃ last, (yields trace).getLast? = some last ∧ last.nextCursor = some (str (page + m))
  otherwise : out = .ok true ∨ ∃ e, out = .error e

section Paginates

variable {config : RestApiConfig} {loads : Bytes → Except String Json} {maxPages : Int}
  {provider : Bool} {answers : Nat → Answer} {page : Int} {m j : Nat}

theorem full_or_ends_or_error (k : Nat) : Full config loads answers provider k ∨
    Ends config loads answers provider k ∨
      ∃ e, recordsAt config loads answers provider k = .error e := by
  cases hrecords : recordsAt config loads answers provider k with
  | error e => exact .inr (.inr ⟨e, rfl⟩)
  | ok records =>
    cases hends : records.isEmpty || config.short records with
    | true => exact .inr (.inl ⟨records, hrecords, ends_iff.mp hends⟩)
    | false => exact .inl ⟨records, hrecords, full_iff.mp hends⟩

theorem ending_full (h : Full config loads answers provider j) :
    ending config loads answers provider page maxPages j =
      .error (.dataLake (pageLimitExceeded maxPages (page + j))) := by
  obtain ⟨records, hrecords, hfull⟩ := h
  rw [ending, hrecords]
  simp only [full_iff.mpr hfull, Bool.false_eq_true, if_false]

theorem ending_ends (h : Ends config loads answers provider j) :
    ending config loads answers provider page maxPages j = .ok true := by
  obtain ⟨records, hrecords, hends⟩ := h
  rw [ending, hrecords]
  simp only [ends_iff.mpr hends, if_true]

theorem ending_error {e : Exc} (h : recordsAt config loads answers provider j = .error e) :
    ending config loads answers provider page maxPages j = .error e := by
  rw [ending, h]

/-- The pages up to the one it goes no further than, of which all before are full. -/
theorem paginates_of_ending (hj : j < m) (hbefore : ∀ i < j, Full config loads answers provider i)
    (hlast : Full config loads answers provider j → j + 1 = m) :
    Paginates config loads answers provider page m
      (ending config loads answers provider page maxPages j)
      ((List.range (j + 1)).flatMap (turnTrace config loads answers provider page)) := by
  have hnone : ∀ k < m, (∀ i < k, Full config loads answers provider i) →
      ¬ Full config loads answers provider k → k = j := by
    intro k hk hall hnot
    rcases Nat.lt_trichotomy k j with hlt | heq | hgt
    · exact absurd (hbefore k hlt) hnot
    · exact heq
    · have := hlast (hall j hgt)
      omega
  have hyields := @yields_flatMap config loads provider answers page (List.range (j + 1))
  refine ⟨⟨j + 1, j.succ_pos, hj, requests_flatMap _, hyields⟩, tries_le, ?_, ?_, ?_, ?_⟩
  · constructor
    · intro hout
      refine ⟨j, hj, hbefore, ?_⟩
      rcases @full_or_ends_or_error config loads provider answers j with hfull | hends | ⟨e, he⟩
      · rw [ending_full hfull] at hout
        cases hout
      · exact hends
      · rw [ending_error he] at hout
        cases hout
    · rintro ⟨k, hk, hall, hends⟩
      obtain rfl := hnone k hk hall (not_full_of_ends hends)
      exact ending_ends hends
  · constructor
    · rintro ⟨e, hout, hlimit⟩ i hi
      rcases @full_or_ends_or_error config loads provider answers j with hfull | hends | ⟨e', he⟩
      · have := hlast hfull
        rcases Nat.lt_or_ge i j with hlt | hge
        · exact hbefore i hlt
        · obtain rfl : i = j := by omega
          exact hfull
      · rw [ending_ends hends] at hout
        cases hout
      · rw [ending_error he] at hout
        obtain rfl := Except.error.inj hout
        rw [recordsAt_not_pageLimit he] at hlimit
        cases hlimit
    · intro hall
      exact ⟨_, ending_full (hall j hj), rfl⟩
  · intro hall
    have hm := hlast (hall j hj)
    have hfull : ∀ k ∈ List.range (j + 1), Full config loads answers provider k := fun k hk =>
      hall k (by rw [List.mem_range] at hk; omega)
    obtain ⟨last, hresult, hcursor⟩ := @handedOver_full _ _ _ _ page _ (hall j hj)
    rw [hyields]
    refine ⟨by rw [length_yields_full _ hfull, List.length_range, hm], last, ?_, ?_⟩
    · rw [List.range_succ, List.flatMap_append, List.flatMap_singleton, hresult]
      exact List.getLast?_concat
    · rw [hcursor, ← hm, Int.add_assoc]
      push_cast
      rfl
  · rcases @full_or_ends_or_error config loads provider answers j with hfull | hends | ⟨e, he⟩
    · exact .inr ⟨_, ending_full hfull⟩
    · exact .inl (ending_ends hends)
    · exact .inr ⟨e, ending_error he⟩

theorem firstPage_not_pageLimit {cursor : Option Text} {start : Int} {e : Exc}
    (h : firstPage cursor start = .error e) : e.isPageLimit = false := by
  unfold firstPage at h
  split at h
  · cases h
  · cases h
  · split at h <;> cases h
    rfl

end Paginates

/-- Whatever the source answers, `fetch` ends, and how it ends says whether the data did. A
cursor that is no number ends it before any request. -/
theorem pagination_ends (config : RestApiConfig) (loads : Bytes → Except String Json)
    (cursor : Option Text) (answers : Nat → Answer) {limits : Int × Int} {provider : Bool}
    (hvalid : config.validate = .ok limits) (hprovider : resolveAuthProvider config = .ok provider)
    (fuel : Nat) (hfuel : limits.1.toNat ≤ fuel) :
    ∃ out n trace, (fetchGenerator config loads fuel cursor).eval (pageExec answers) (fun _ => ())
      (0, []) = some (out, (n, trace)) ∧
      match firstPage cursor limits.2 with
      | .error e => out = .error e ∧ e.isPageLimit = false ∧ trace = []
      | .ok page => Paginates config loads answers provider page limits.1.toNat out trace := by
  have hpos := validate_pos hvalid
  unfold fetchGenerator
  rw [hvalid, hprovider]
  cases hfirst : firstPage cursor limits.2 with
  | error e =>
    refine ⟨.error e, 0, [], ?_, rfl, firstPage_not_pageLimit hfirst, rfl⟩
    rw [Prog.eval_bind, eval_orRaise]
    dsimp only [Except.mapError, Option.bind_some]
    rw [hfirst, Prog.eval_bind, eval_orRaise]
    rfl
  | ok page =>
    obtain ⟨j, -, hj, hbefore, hlast, heval⟩ := @eval_loop config loads limits.1 provider answers page
      limits.1.toNat (by omega) (limits.1.toNat - 1) 0 fuel [] (by omega) (by omega)
    refine ⟨_, offset answers provider (j + 1), _, ?_, @paginates_of_ending _ _ limits.1 _ _ _ _ _
      hj (fun i hi => hbefore i i.zero_le hi) hlast⟩
    rw [Prog.eval_bind, eval_orRaise]
    dsimp only [Except.mapError, Option.bind_some]
    rw [hfirst, Prog.eval_bind, eval_orRaise]
    dsimp only [Option.bind_some]
    rw [Prog.eval_bind, eval_orRaise]
    dsimp only [Option.bind_some]
    rw [Int.natCast_zero, Int.add_zero, Nat.sub_zero, List.nil_append, ← List.range_eq_range'] at heval
    exact heval

/-- Pages of two records, of which three are allowed. -/
def shortConfig : RestApiConfig :=
  { baseUrl := "https://source".toList, path := "/rows".toList, pageSize := some 2,
    maxPages := .int 3 }

theorem pagination_ends_short : ∃ out n trace,
    (fetchGenerator shortConfig (fun _ => .ok (.arr [.null])) 3 none).eval
      (pageExec fun _ => .response ⟨200, none, []⟩) (fun _ => ()) (0, []) =
        some (out, (n, trace)) ∧
    Paginates shortConfig (fun _ => .ok (.arr [.null])) (fun _ => .response ⟨200, none, []⟩) false 1 3
      out trace :=
  @pagination_ends shortConfig (fun _ => .ok (.arr [.null])) none
    (fun _ => .response ⟨200, none, []⟩) (3, 1) false rfl rfl 3 le_rfl

end DataLake

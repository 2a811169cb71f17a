import DataLake.Redirects
import DataLake.Foundation.Sessions

/-! What is read of a response, whatever its source sends: as many bytes as the cap allows,
and the body only where it ends within them. -/

namespace DataLake

open Foundation

def tooLarge (maxBytes : Nat) : DataLakeError :=
  outboundRequestBlocked s!"response exceeded the maximum allowed size of {maxBytes} bytes"

/-- The bytes of chunks, one after the other. -/
def joined (chunks : List Chunk) : Bytes := chunks.flatMap Subtype.val

/-- The calls that get the chunks. -/
def chunkReads (chunks : List Chunk) : List (Call HttpSig) :=
  chunks.map fun chunk => ⟨.nextChunk, .ok (some chunk)⟩

/-- How the reading ends, after some chunks, with the last answer of the source. -/
inductive Stops (maxBytes : Nat) (chunks : List Chunk) :
    Except Exc (Option Chunk) → Except Exc Bytes → Prop where
  | ended : Stops maxBytes chunks (.ok none) (.ok (joined chunks))
  | failed (e : Exc) : Stops maxBytes chunks (.error e) (.error e)
  | exceeded (chunk : Chunk) (hsize : maxBytes < (joined (chunks ++ [chunk])).length) :
      Stops maxBytes chunks (.ok (some chunk)) (.error (.dataLake (tooLarge maxBytes)))

/-- A reading of a response: chunks within the cap, the answer that stops it, and the response
closed. -/
structure Reading (maxBytes : Nat) (calls : List (Call HttpSig)) (out : Except Exc Bytes)
    (chunks : List Chunk) (last : Except Exc (Option Chunk)) : Prop where
  calls_eq : calls = chunkReads chunks ++ [⟨.nextChunk, last⟩, ⟨.close, ()⟩]
  within : (joined chunks).length ≤ maxBytes
  stops : Stops maxBytes chunks last out

theorem joined_append (chunks chunks' : List Chunk) :
    joined (chunks ++ chunks') = joined chunks ++ joined chunks' := by
  simp [joined]

/-- No chunk is empty, so there are no more of them than bytes. -/
theorem length_le_joined (chunks : List Chunk) : chunks.length ≤ (joined chunks).length := by
  induction chunks with
  | nil => simp
  | cons chunk chunks ih =>
    have hpos := List.length_pos_iff.mpr chunk.2
    have hjoined : joined (chunk :: chunks) = chunk.1 ++ joined chunks := rfl
    rw [hjoined, List.length_cons, List.length_append]
    omega

section Runs

variable {S : Signature} {ε α β : Type} {calls : List (Call S)} {out : Except ε α}

theorem ends_ret {a : α} : (Prog.ret a : Prog S ε α).Ends calls out ↔ calls = [] ∧ out = .ok a := by
  constructor
  · intro h
    cases h
    exact ⟨rfl, rfl⟩
  · rintro ⟨rfl, rfl⟩
    exact .ret a

theorem ends_raise {e : ε} :
    (Prog.raise e : Prog S ε α).Ends calls out ↔ calls = [] ∧ out = .error e := by
  constructor
  · intro h
    cases h
    exact ⟨rfl, rfl⟩
  · rintro ⟨rfl, rfl⟩
    exact .raise e

theorem ends_call {op : S.Op} {k : S.Resp op → Prog S ε α} :
    (Prog.call op k).Ends calls out ↔ ∃ r rest, calls = ⟨op, r⟩ :: rest ∧ (k r).Ends rest out := by
  constructor
  · intro h
    cases h with
    | @call _ _ r l _ hrest => exact ⟨r, l, rfl, hrest⟩
  · rintro ⟨r, rest, rfl, h⟩
    exact .call h

/-- A step that cannot raise before what follows. -/
theorem ends_map {p : Prog S ε α} {f : α → β} {out : Except ε β} :
    (p >>= fun a => Prog.ret (f a)).Ends calls out ↔ ∃ out', p.Ends calls out' ∧ out = out'.map f := by
  induction p generalizing calls with
  | ret a =>
    show (Prog.ret (f a) : Prog S ε β).Ends calls out ↔ _
    simp only [ends_ret, and_assoc, exists_and_left, exists_eq_left, Except.map]
  | raise e =>
    show (Prog.raise e : Prog S ε β).Ends calls out ↔ _
    simp only [ends_raise, and_assoc, exists_and_left, exists_eq_left, Except.map]
  | call op k ih =>
    show (Prog.call op fun r => k r >>= fun a => Prog.ret (f a)).Ends calls out ↔ _
    simp only [ends_call, ih]
    constructor
    · rintro ⟨r, rest, hcalls, out', hrest, hout⟩
      exact ⟨out', ⟨r, rest, hcalls, hrest⟩, hout⟩
    · rintro ⟨out', ⟨r, rest, hcalls, hrest⟩, hout⟩
      exact ⟨r, rest, hcalls, out', hrest, hout⟩

end Runs

section Reading

variable {maxBytes left : Nat} {before : List Chunk} {calls : List (Call HttpSig)}
  {out : Except Exc Bytes}

theorem ends_close {p : HttpProg Bytes} :
    (httpCall .close >>= fun _ => p).Ends calls out ↔
      ∃ rest, calls = ⟨.close, ()⟩ :: rest ∧ p.Ends rest out := by
  show (Prog.call (S := HttpSig) HttpOp.close fun _ => p).Ends calls out ↔ _
  rw [ends_call]
  exact ⟨fun ⟨_, h⟩ => h, fun h => ⟨(), h⟩⟩

/-- One read: the response is closed after it, or the reading goes on within the cap. -/
theorem readBoundedBody_cases (hleft : left + (joined before).length = maxBytes) :
    (readBoundedBody maxBytes left (joined before)).Ends calls out ↔
      (∃ last, Stops maxBytes before last out ∧
        calls = [⟨.nextChunk, last⟩, ⟨.close, ()⟩]) ∨
      ∃ chunk rest, chunk.1.length ≤ left ∧ calls = ⟨.nextChunk, .ok (some chunk)⟩ :: rest ∧
        (readBoundedBody maxBytes (left - chunk.1.length)
          (joined (before ++ [chunk]))).Ends rest out := by
  have hjoined : ∀ chunk : Chunk, joined (before ++ [chunk]) = joined before ++ chunk.1 := by
    intro chunk
    rw [joined_append]
    simp [joined]
  rw [readBoundedBody]
  show (Prog.call (S := HttpSig) HttpOp.nextChunk _).Ends calls out ↔ _
  rw [ends_call]
  constructor
  · rintro ⟨r, rest, rfl, hrest⟩
    rcases r with e | next
    · obtain ⟨rest', rfl, hraise⟩ := ends_close.mp hrest
      obtain ⟨rfl, rfl⟩ := ends_raise.mp hraise
      exact .inl ⟨_, .failed e, rfl⟩
    · rcases next with _ | chunk
      · obtain ⟨rest', rfl, hret⟩ := ends_close.mp hrest
        obtain ⟨rfl, rfl⟩ := ends_ret.mp hret
        exact .inl ⟨_, .ended, rfl⟩
      · rw [Prog.handle_ret] at hrest
        dsimp only at hrest
        split_ifs at hrest with hsize
        · obtain ⟨rest', rfl, hraise⟩ := ends_close.mp hrest
          obtain ⟨rfl, rfl⟩ := ends_raise.mp hraise
          have hexceeded : maxBytes < (joined (before ++ [chunk])).length := by
            rw [hjoined, List.length_append]
            omega
          exact .inl ⟨_, .exceeded chunk hexceeded, rfl⟩
        · rw [← hjoined] at hrest
          exact .inr ⟨chunk, rest, Nat.le_of_not_lt hsize, rfl, hrest⟩
  · rintro (⟨last, hstops, rfl⟩ | ⟨chunk, rest, hsize, rfl, hrest⟩)
    · refine ⟨last, _, rfl, ?_⟩
      cases hstops with
      | ended => exact ends_close.mpr ⟨[], rfl, .ret _⟩
      | failed e => exact ends_close.mpr ⟨[], rfl, .raise e⟩
      | exceeded chunk hexceeded =>
        rw [hjoined, List.length_append] at hexceeded
        have hsize : left < chunk.1.length := by omega
        rw [Prog.handle_ret]
        dsimp only
        rw [if_pos hsize]
        exact ends_close.mpr ⟨[], rfl, .raise _⟩
    · refine ⟨_, rest, rfl, ?_⟩
      rw [Prog.handle_ret]
      dsimp only
      rw [if_neg (Nat.not_lt.mpr hsize), ← hjoined]
      exact hrest

/-- The runs of the reading are its readings, from whatever has been read so far. -/
theorem readBoundedBody_ends (hleft : left + (joined before).length = maxBytes) :
    (readBoundedBody maxBytes left (joined before)).Ends calls out ↔
      ∃ chunks last, calls = chunkReads chunks ++ [⟨.nextChunk, last⟩, ⟨.close, ()⟩] ∧
        (joined (before ++ chunks)).length ≤ maxBytes ∧
        Stops maxBytes (before ++ chunks) last out := by
  induction left using Nat.strong_induction_on generalizing before calls with
  | _ left ih =>
    have hstep : ∀ chunk : Chunk, chunk.1.length ≤ left →
        left - chunk.1.length < left ∧
          left - chunk.1.length + (joined (before ++ [chunk])).length = maxBytes := by
      intro chunk hsize
      have hpos := List.length_pos_iff.mpr chunk.2
      have hlength : (joined (before ++ [chunk])).length =
          (joined before).length + chunk.1.length := by
        rw [joined_append, List.length_append]
        simp [joined]
      omega
    rw [readBoundedBody_cases hleft]
    constructor
    · rintro (⟨last, hstops, rfl⟩ | ⟨chunk, rest, hsize, rfl, hrest⟩)
      · refine ⟨[], last, rfl, ?_, ?_⟩
        · rw [List.append_nil]
          omega
        · rwa [List.append_nil]
      · obtain ⟨hless, hleft'⟩ := hstep chunk hsize
        obtain ⟨chunks, last, rfl, hwithin, hstops⟩ := (ih _ hless hleft').mp hrest
        rw [List.append_assoc] at hwithin hstops
        exact ⟨chunk :: chunks, last, rfl, hwithin, hstops⟩
    · rintro ⟨chunks, last, rfl, hwithin, hstops⟩
      cases chunks with
      | nil =>
        rw [List.append_nil] at hstops
        exact .inl ⟨last, hstops, rfl⟩
      | cons chunk chunks =>
        have hsize : chunk.1.length ≤ left := by
          rw [joined_append, List.length_append] at hwithin
          have hjoined : joined (chunk :: chunks) = chunk.1 ++ joined chunks := rfl
          rw [hjoined, List.length_append] at hwithin
          omega
        obtain ⟨hless, hleft'⟩ := hstep chunk hsize
        refine .inr ⟨chunk, _, hsize, rfl, (ih _ hless hleft').mpr ⟨chunks, last, rfl, ?_, ?_⟩⟩
        · rwa [List.append_assoc]
        · rwa [List.append_assoc]

/-- The first answers of a source. -/
def sourceReads (source : Nat → Except Exc (Option Chunk)) (n : Nat) : List (Call HttpSig) :=
  (List.range n).map fun i => ⟨.nextChunk, source i⟩

theorem sourceReads_succ (source : Nat → Except Exc (Option Chunk)) (n : Nat) :
    sourceReads source (n + 1) =
      ⟨.nextChunk, source 0⟩ :: sourceReads (fun i => source (i + 1)) n := by
  simp [sourceReads, List.range_succ_eq_map, List.map_map, Function.comp_def]

/-- Every source is read to an end, be it endless. -/
theorem readBoundedBody_source (hleft : left + (joined before).length = maxBytes)
    (source : Nat → Except Exc (Option Chunk)) :
    ∃ n out, (readBoundedBody maxBytes left (joined before)).Ends
      (sourceReads source (n + 1) ++ [⟨.close, ()⟩]) out := by
  induction left using Nat.strong_induction_on generalizing before source with
  | _ left ih =>
    have hstop : ∀ last out, source 0 = last → Stops maxBytes before last out → ∃ n out,
        (readBoundedBody maxBytes left (joined before)).Ends
          (sourceReads source (n + 1) ++ [⟨.close, ()⟩]) out := by
      rintro _ out rfl hstops
      exact ⟨0, out, (readBoundedBody_cases hleft).mpr (.inl ⟨_, hstops, rfl⟩)⟩
    cases hfirst : source 0 with
    | error e => exact hstop _ _ hfirst (.failed e)
    | ok next =>
      cases next with
      | none => exact hstop _ _ hfirst .ended
      | some chunk =>
        have hpos := List.length_pos_iff.mpr chunk.2
        have hlength : (joined (before ++ [chunk])).length =
            (joined before).length + chunk.1.length := by
          rw [joined_append, List.length_append]
          simp [joined]
        by_cases hsize : chunk.1.length ≤ left
        · have hleft' : left - chunk.1.length + (joined (before ++ [chunk])).length = maxBytes := by
            omega
          obtain ⟨n, out, hrest⟩ := ih (left - chunk.1.length) (by omega) hleft' fun i =>
            source (i + 1)
          refine ⟨n + 1, out, (readBoundedBody_cases hleft).mpr (.inr ⟨chunk, _, hsize, ?_, hrest⟩)⟩
          rw [sourceReads_succ, hfirst, List.cons_append]
        · have hexceeded : maxBytes < (joined (before ++ [chunk])).length := by omega
          exact hstop _ _ hfirst (.exceeded chunk hexceeded)

end Reading

variable {A : Type} [Address A]

theorem resolveMaxResponseBytes_le (ceiling : Nat) (requested : Option Nat) :
    resolveMaxResponseBytes ceiling requested ≤ ceiling ∧
      ∀ n, requested = some n → resolveMaxResponseBytes ceiling requested ≤ n := by
  cases requested with
  | none => simp [resolveMaxResponseBytes]
  | some n =>
    have hmin : resolveMaxResponseBytes ceiling (some n) = min n ceiling := rfl
    simp only [hmin, Option.some.injEq, forall_eq']
    omega

/-- A request that is let through and answered comes to the reading of its response. -/
theorem guardedSend_ends {lib : UrlLibrary} {context : OutboundContext A} {options : SendOptions}
    {url : Text} (hvalid : validateOutboundUrl lib context url = .ok ())
    (hbody : options.readBody = true) {response : HttpResponse}
    (hredirect : response.isRedirect = false) {cap : Nat}
    (hmax : resolveMaxResponseBytes options.ceiling options.maxResponseBytes = cap)
    {calls : List (Call HttpSig)} {out : Except Exc (HttpResponse × Bytes)} :
    (guardedSend lib context options url).Ends (⟨.send url, .ok response⟩ :: calls) out ↔
      ((readBoundedBody cap cap []) >>= fun body => Prog.ret (response, body)).Ends calls out := by
  rw [guardedSend, hvalid, hmax]
  show (Prog.call (S := HttpSig) (HttpOp.send url) _).Ends _ _ ↔ _
  rw [ends_call]
  have hplain : ¬ response.isRedirect = true := by simp [hredirect]
  have hwanted : ¬ (!options.readBody) = true := by simp [hbody]
  constructor
  · rintro ⟨r, rest, heq, hrest⟩
    obtain ⟨hcall, rfl⟩ := List.cons_eq_cons.mp heq
    obtain rfl : .ok response = r := eq_of_heq (Sigma.mk.inj hcall).2
    have hsent : (if response.isRedirect then _ else if !options.readBody then _ else _ :
      HttpProg (HttpResponse × Bytes)).Ends calls out := hrest
    rw [if_neg hplain, if_neg hwanted] at hsent
    exact hsent
  · intro hrest
    refine ⟨_, calls, rfl, ?_⟩
    show (if response.isRedirect then _ else if !options.readBody then _ else _ :
      HttpProg (HttpResponse × Bytes)).Ends calls out
    rw [if_neg hplain, if_neg hwanted]
    exact hrest

theorem readBoundedBody_reading {cap : Nat} {calls : List (Call HttpSig)} {out : Except Exc Bytes} :
    (readBoundedBody cap cap []).Ends calls out ↔
      ∃ chunks last, Reading cap calls out chunks last := by
  refine (@readBoundedBody_ends cap cap [] calls out (by simp [joined])).trans ?_
  simp only [List.nil_append]
  constructor
  · rintro ⟨chunks, last, hcalls, hwithin, hstops⟩
    exact ⟨chunks, last, hcalls, hwithin, hstops⟩
  · rintro ⟨chunks, last, hcalls, hwithin, hstops⟩
    exact ⟨chunks, last, hcalls, hwithin, hstops⟩

/-- The runs of a request that is let through and answered are the readings of its response:
the body is given out where the response ends within the cap, which no setting of the caller
raises above the ceiling, and it is closed in any case. Every source is read to an end, with no
more reads than the cap has bytes, and one. -/
theorem response_bounded (lib : UrlLibrary) (context : OutboundContext A) (options : SendOptions)
    {url : Text} (hvalid : validateOutboundUrl lib context url = .ok ())
    (hbody : options.readBody = true) {response : HttpResponse}
    (hredirect : response.isRedirect = false) :
    ∃ cap ≤ options.ceiling, (∀ requested, options.maxResponseBytes = some requested →
      cap ≤ requested) ∧
    (∀ calls out, (guardedSend lib context options url).Ends
        (⟨.send url, .ok response⟩ :: calls) out ↔
      ∃ chunks last body, Reading cap calls body chunks last ∧ out = body.map (response, ·)) ∧
    ∀ source : Nat → Except Exc (Option Chunk), ∃ n ≤ cap, ∃ out,
      (guardedSend lib context options url).Ends (⟨.send url, .ok response⟩ ::
        (sourceReads source (n + 1) ++ [⟨.close, ()⟩])) out := by
  have hcap := resolveMaxResponseBytes_le options.ceiling options.maxResponseBytes
  generalize hmax : resolveMaxResponseBytes options.ceiling options.maxResponseBytes = cap at hcap
  refine ⟨cap, hcap.1, hcap.2, fun calls out => ?_, fun source => ?_⟩
  · rw [guardedSend_ends hvalid hbody hredirect hmax, ends_map]
    simp only [readBoundedBody_reading]
    constructor
    · rintro ⟨body, ⟨chunks, last, h⟩, hout⟩
      exact ⟨chunks, last, body, h, hout⟩
    · rintro ⟨chunks, last, body, h, hout⟩
      exact ⟨body, ⟨chunks, last, h⟩, hout⟩
  · obtain ⟨n, body, hsource⟩ := @readBoundedBody_source cap cap [] (by simp [joined]) source
    obtain ⟨chunks, last, hcalls, hwithin, -⟩ := readBoundedBody_reading.mp hsource
    have hlength := congrArg List.length hcalls
    simp only [sourceReads, chunkReads, List.length_append, List.length_map, List.length_range,
      List.length_cons, List.length_nil] at hlength
    have hchunks := length_le_joined chunks
    exact ⟨n, by omega, _, (guardedSend_ends hvalid hbody hredirect hmax).mpr
      (ends_map.mpr ⟨body, hsource, rfl⟩)⟩

/-- A source that never ends. -/
theorem response_bounded_endless : ∃ n ≤ 1000, ∃ out,
    (guardedSend asciiLibrary (tenantLists internalAddress) { ceiling := 1000 } insurerUrl).Ends
      (⟨.send insurerUrl, .ok { isRedirect := false }⟩ ::
        (sourceReads (fun _ => .ok (some ⟨[0], List.cons_ne_nil _ _⟩)) (n + 1) ++
          [⟨.close, ()⟩])) out := by
  have hplain : ({ isRedirect := false } : HttpResponse).isRedirect = false := rfl
  obtain ⟨cap, hcap, -, -, hsource⟩ := response_bounded asciiLibrary (tenantLists internalAddress)
    { ceiling := 1000 } insurerUrl_valid rfl hplain
  obtain ⟨n, hn, hends⟩ := hsource fun _ => .ok (some ⟨[0], List.cons_ne_nil _ _⟩)
  exact ⟨n, hn.trans hcap, hends⟩

end DataLake

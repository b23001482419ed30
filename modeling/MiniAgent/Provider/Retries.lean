import MiniAgent.Provider.Client

/-!
# Retries of a model request

What `LLMClient.run` owes its caller (`RetryContract`): it starts another attempt exactly after a
failure that may pass, it never does so after output has been shown, and a stream that breaks off is
not taken for an answer. The Responses and Messages adapters turn the transport errors of a stream
into output errors, so there the first attempt is the last.
-/

namespace MiniAgent.Provider

open Lib LLMClient

/-! ## Statements -/

variable (r : Reader)

/-- Attempt `n` fails in its transport before any event, in a way that may pass. -/
def Replies.failsEarly (replies : Replies) (n : Nat) : Bool :=
  match replies with
  | .streamed replies => (replies n).failsEarly r
  | .plain replies => (replies n).failsEarly

/-- The stream of attempt `n` breaks off. -/
def Replies.breaksOff (replies : Replies) (n : Nat) : Bool :=
  match replies with
  | .streamed replies => !(replies n).completes r
  | .plain _ => false

def Replies.isPlain : Replies → Bool
  | .streamed _ => false
  | .plain _ => true

/-- **What a run owes its caller.** -/
structure RetryContract (replies : Replies) (maxTransportRetries : Nat) (run : ClientRun) :
    Prop where
  restarts : ∀ n, n + 1 < run.attempts.length ↔
    n < run.attempts.length ∧ replies.failsEarly r n = true ∧ n < maxTransportRetries
  silent : ∀ n a, n + 1 < run.attempts.length → run.attempts[n]? = some a → a.outputs = []
  /-- A stream that breaks off and is not tried again makes the run fail. -/
  broken : ∀ n, n < run.attempts.length → replies.breaksOff r n = true →
    n + 1 < run.attempts.length ∨ ∃ e, run.outcome = .error e

/-! ## The loop of attempts -/

/-- The attempt ends with a transport error that may pass. -/
def Attempt.retryable (a : Attempt) : Bool :=
  match a.outcome with
  | .error (.transport e) => e.retryable
  | _ => false

variable {once : Nat → Attempt} {max n left : Nat}

theorem runFrom_retry (h : (once n).retryable = true) :
    (runFrom once max n (left + 1)).attempts = once n :: (runFrom once max (n + 1) left).attempts ∧
      (runFrom once max n (left + 1)).outcome = (runFrom once max (n + 1) left).outcome := by
  unfold Attempt.retryable at h
  split at h
  · next e he =>
    rw [runFrom, he]
    dsimp only
    rw [if_pos h]
    exact ⟨rfl, rfl⟩
  · cases h

theorem runFrom_stop (h : (once n).retryable = false) :
    (runFrom once max n (left + 1)).attempts = [once n] ∧
      (runFrom once max n (left + 1)).outcome = (once n).outcome := by
  unfold Attempt.retryable at h
  rw [runFrom]
  split
  · next e he =>
    rw [he] at h
    dsimp only at h
    rw [if_neg (by simp [h])]
    exact ⟨rfl, rfl⟩
  · exact ⟨rfl, rfl⟩

theorem attempts_pos (once : Nat → Attempt) (max n left : Nat) :
    0 < (runFrom once max n left).attempts.length := by
  cases left with
  | zero => exact Nat.zero_lt_one
  | succ left =>
    cases h : (once n).retryable with
    | true =>
      rw [(runFrom_retry h).1]
      exact Nat.succ_pos _
    | false =>
      rw [(runFrom_stop h).1]
      exact Nat.zero_lt_one

/-- **When another attempt starts.** -/
theorem runFrom_restarts (once : Nat → Attempt) (max n left k : Nat) :
    k + 1 < (runFrom once max n left).attempts.length ↔
    k < (runFrom once max n left).attempts.length ∧ (once (n + k)).retryable = true ∧ k < left := by
  induction left generalizing n k with
  | zero =>
    have : (runFrom once max n 0).attempts.length = 1 := rfl
    omega
  | succ left ih =>
    cases hretry : (once n).retryable with
    | true =>
      rw [(runFrom_retry hretry).1, List.length_cons]
      have hpos := attempts_pos once max (n + 1) left
      cases k with
      | zero =>
        simp only [Nat.add_zero, hretry, true_and]
        omega
      | succ k =>
        have := ih (n + 1) k
        rw [Nat.add_right_comm n 1 k] at this
        rw [Nat.add_lt_add_iff_right, this, Nat.add_lt_add_iff_right, Nat.add_lt_add_iff_right]
        rfl
    | false =>
      rw [(runFrom_stop hretry).1, List.length_singleton]
      constructor
      · omega
      · rintro ⟨hk, hretry', -⟩
        obtain rfl : k = 0 := by omega
        rw [Nat.add_zero, hretry] at hretry'
        cases hretry'

theorem runFrom_get {k : Nat} {a : Attempt} (h : (runFrom once max n left).attempts[k]? = some a) :
    a = once (n + k) := by
  induction left generalizing n k with
  | zero =>
    cases k with
    | zero => exact (Option.some.inj h).symm
    | succ k => cases h
  | succ left ih =>
    cases hretry : (once n).retryable with
    | true =>
      rw [(runFrom_retry hretry).1] at h
      cases k with
      | zero => exact (Option.some.inj h).symm
      | succ k =>
        rw [ih h, Nat.add_right_comm n 1 k]
        rfl
    | false =>
      rw [(runFrom_stop hretry).1] at h
      cases k with
      | zero => exact (Option.some.inj h).symm
      | succ k => cases h

/-- The outcome is that of the last attempt. -/
theorem runFrom_outcome (once : Nat → Attempt) (max n left : Nat) :
    ∃ k, k + 1 = (runFrom once max n left).attempts.length ∧
    (runFrom once max n left).outcome = (once (n + k)).outcome := by
  induction left generalizing n with
  | zero => exact ⟨0, rfl, rfl⟩
  | succ left ih =>
    cases hretry : (once n).retryable with
    | true =>
      obtain ⟨k, hlen, hout⟩ := ih (n + 1)
      refine ⟨k + 1, by rw [(runFrom_retry hretry).1, List.length_cons, hlen], ?_⟩
      rw [(runFrom_retry hretry).2, hout, show n + (k + 1) = n + 1 + k by omega]
    | false => exact ⟨0, by rw [(runFrom_stop hretry).1]; rfl, (runFrom_stop hretry).2⟩

/-! ## One attempt -/

variable {dec : Decoder} {r} {p : Protocol} {replies : Replies}

theorem consume_nil (q : EventParser) (e : TransportError) (s : q.State) :
    q.consume (some e) s [] = ([], .error (.inl e)) := rfl

/-- A stream that breaks off is never parsed to the end. -/
theorem consume_error (q : EventParser) (e : TransportError) (s : q.State) (events : List Fields) :
    ∃ f, (q.consume (some e) s events).2 = .error f := by
  induction events generalizing s with
  | nil => exact ⟨_, rfl⟩
  | cons event events ih =>
    rw [EventParser.consume]
    cases q.add s event with
    | error e => exact ⟨_, rfl⟩
    | ok s' => exact ih s'

/-- A transport error comes out of a parser only as it went in. -/
theorem consume_transport (q : EventParser) {ending : Option TransportError} {e : TransportError}
    (s : q.State) {events : List Fields} (h : (q.consume ending s events).2 = .error (.inl e)) :
    ending = some e := by
  induction events generalizing s with
  | nil =>
    cases ending with
    | some e' =>
      cases h
      rfl
    | none =>
      have h : (q.finish s).mapError Sum.inr = .error (.inl e) := h
      cases hfinish : q.finish s <;> rw [hfinish] at h <;> cases h
  | cons event events ih =>
    rw [EventParser.consume] at h
    cases hadd : q.add s event with
    | error e' =>
      rw [hadd] at h
      cases h
    | ok s' =>
      rw [hadd] at h
      exact ih s' h

theorem Attempt.retryable_iff {a : Attempt} :
    a.retryable = true ↔ ∃ e, a.outcome = .error (.transport e) ∧ e.retryable = true := by
  unfold Attempt.retryable
  split
  · next e he => simp [he]
  · next hno =>
    refine ⟨fun h => (by cases h), fun ⟨e, he, _⟩ => absurd he (hno e)⟩

theorem mapError_error {α β γ : Type} {x : Except α γ} {f : α → β} {b : β} :
    x.mapError f = .error b ↔ ∃ a, x = .error a ∧ f a = b := by
  cases x <;> simp [Except.mapError]

/-- A plain attempt. -/
theorem runOnce_plain (bodies : Nat → PlainReply) (n : Nat) :
    ((runOnce dec r p (.plain bodies) n).retryable = true ↔ (bodies n).failsEarly = true) ∧
      (runOnce dec r p (.plain bodies) n).outputs = [] := by
  rw [← postJson_retryable, Attempt.retryable_iff, runOnce]
  cases hpost : postJson (bodies n) with
  | error e => simp
  | ok data =>
    refine ⟨⟨fun ⟨e, he, _⟩ => ?_, fun ⟨e, he, _⟩ => (by cases he)⟩, rfl⟩
    obtain ⟨f, -, hf⟩ := mapError_error.mp he
    cases f <;> cases hf

/-- A streamed attempt of an adapter that lets transport errors through. -/
theorem runOnce_chat (lines : Nat → StreamReply) (n : Nat) :
    ((runOnce dec r .chatCompletions (.streamed lines) n).retryable = true ↔
      (lines n).failsEarly r = true) ∧
      ((lines n).failsEarly r = true →
        (runOnce dec r .chatCompletions (.streamed lines) n).outputs = []) := by
  obtain ⟨hretry, hempty⟩ := streamJson_retryable (r := r) (lines n)
  have honce : runOnce dec r .chatCompletions (.streamed lines) n
      = ⟨((chatParser dec).consume (streamJson r (lines n)).2 (chatParser dec).start
        (streamJson r (lines n)).1).1,
        ((chatParser dec).consume (streamJson r (lines n)).2 (chatParser dec).start
          (streamJson r (lines n)).1).2.mapError
          (Protocol.raised .chatCompletions)⟩ := rfl
  rw [honce, Attempt.retryable_iff]
  have hearly : (lines n).failsEarly r = true → ∃ e, (streamJson r (lines n)).2 = some e ∧
      e.retryable = true ∧
      (chatParser dec).consume (streamJson r (lines n)).2 (chatParser dec).start
        (streamJson r (lines n)).1
        = ([], .error (.inl e)) := by
    intro h
    obtain ⟨e, he, hre⟩ := hretry.mpr h
    exact ⟨e, he, hre, by rw [he, hempty h, consume_nil]⟩
  refine ⟨⟨fun ⟨e, he, hre⟩ => ?_, fun h => ?_⟩, fun h => ?_⟩
  · obtain ⟨f, hf, hraised⟩ := mapError_error.mp he
    cases f with
    | inl e' =>
      cases hraised
      exact hretry.mp ⟨e, consume_transport _ _ hf, hre⟩
    | inr e' => cases e' <;> cases hraised
  · obtain ⟨e, -, hre, hconsume⟩ := hearly h
    exact ⟨e, by rw [hconsume]; rfl, hre⟩
  · obtain ⟨e, -, -, hconsume⟩ := hearly h
    rw [hconsume]

/-- A streamed attempt of the other adapters ends with no transport error. -/
theorem runOnce_streamed (hp : p ≠ .chatCompletions) (lines : Nat → StreamReply) (n : Nat) :
    (runOnce dec r p (.streamed lines) n).retryable = false := by
  rw [Bool.eq_false_iff, ne_eq, Attempt.retryable_iff]
  rintro ⟨e, he, -⟩
  obtain ⟨f, -, hraised⟩ := mapError_error.mp he
  cases f with
  | inl e' =>
    cases p with
    | chatCompletions => exact hp rfl
    | _ => cases hraised
  | inr e' => cases e' <;> cases hraised

/-- A stream that breaks off makes its attempt fail. -/
theorem runOnce_breaksOff (dec : Decoder) (p : Protocol) {n : Nat}
    (h : replies.breaksOff r n = true) :
    ∃ e, (runOnce dec r p replies n).outcome = .error e := by
  cases replies with
  | plain bodies => cases h
  | streamed lines =>
    have hnone : (streamJson r (lines n)).2 ≠ none := by
      rw [ne_eq, streamJson_completes]
      simpa [Replies.breaksOff] using h
    obtain ⟨e, he⟩ := Option.ne_none_iff_exists'.mp hnone
    obtain ⟨f, hf⟩ := consume_error (p.parser dec) e (p.parser dec).start (streamJson r (lines n)).1
    refine ⟨p.raised f, ?_⟩
    show ((p.parser dec).consume (streamJson r (lines n)).2 (p.parser dec).start
      (streamJson r (lines n)).1).2.mapError _ = _
    rw [he, hf]
    rfl

/-! ## Runs -/

/-- An attempt that another one follows was silent. -/
theorem runOnce_silent {n : Nat} (h : (runOnce dec r p replies n).retryable = true) :
    (runOnce dec r p replies n).outputs = [] := by
  cases replies with
  | plain bodies => exact (runOnce_plain bodies n).2
  | streamed lines =>
    by_cases hp : p = .chatCompletions
    · subst hp
      exact (runOnce_chat lines n).2 ((runOnce_chat lines n).1.mp h)
    · rw [runOnce_streamed hp] at h
      cases h

/-- Another attempt is started exactly after a failure that may pass, when such failures are let
through. -/
theorem runOnce_retryable (hpass : p = .chatCompletions ∨ replies.isPlain = true) (n : Nat) :
    (runOnce dec r p replies n).retryable = true ↔ replies.failsEarly r n = true := by
  cases replies with
  | plain bodies => exact (runOnce_plain bodies n).1
  | streamed lines =>
    obtain rfl := hpass.resolve_right (by simp [Replies.isPlain])
    exact (runOnce_chat lines n).1

/-- The other adapters never try a stream again. -/
theorem runOnce_stops (hpass : ¬ (p = .chatCompletions ∨ replies.isPlain = true)) (n : Nat) :
    (runOnce dec r p replies n).retryable = false := by
  cases replies with
  | plain bodies => exact absurd (.inr rfl) hpass
  | streamed lines => exact runOnce_streamed (fun hp => hpass (.inl hp)) lines n

/-- **Retries of a request.** A run keeps its contract exactly for the adapter that lets transport
errors through, for a plain exchange, without retries, or when the first attempt does not fail
early. -/
theorem retry_contract (dec : Decoder) (r : Reader) (p : Protocol) (replies : Replies)
    (maxTransportRetries : Nat) :
    RetryContract r replies maxTransportRetries
      (LLMClient.run dec r p replies maxTransportRetries) ↔
      p = .chatCompletions ∨ replies.isPlain = true ∨ maxTransportRetries = 0 ∨
      replies.failsEarly r 0 = false := by
  have hrestarts := runFrom_restarts (runOnce dec r p replies) maxTransportRetries
    0 maxTransportRetries
  simp only [Nat.zero_add] at hrestarts
  constructor
  · intro h
    by_cases hpass : p = .chatCompletions ∨ replies.isPlain = true
    · exact hpass.elim .inl fun h => .inr (.inl h)
    · -- the first attempt is not tried again
      refine .inr (.inr ?_)
      by_contra hnot
      rw [not_or] at hnot
      obtain ⟨hmax, hfails⟩ := hnot
      have hstarted : 0 < (LLMClient.run dec r p replies maxTransportRetries).attempts.length :=
        attempts_pos ..
      have hnext := (h.restarts 0).mpr ⟨hstarted, by simpa using hfails, Nat.pos_of_ne_zero hmax⟩
      have hretry := ((hrestarts 0).mp hnext).2.1
      rw [runOnce_stops hpass] at hretry
      cases hretry
  · intro h
    have hfails : ∀ n, n < (LLMClient.run dec r p replies maxTransportRetries).attempts.length →
        n < maxTransportRetries →
        ((runOnce dec r p replies n).retryable = true ↔ replies.failsEarly r n = true) := by
      by_cases hpass : p = .chatCompletions ∨ replies.isPlain = true
      · exact fun n _ _ => runOnce_retryable hpass n
      · have hcase := (h.resolve_left fun hp => hpass (.inl hp)).resolve_left fun hp =>
          hpass (.inr hp)
        intro n hn hmax
        -- there is one attempt only
        have hzero : n = 0 := by
          cases n with
          | zero => rfl
          | succ n =>
            have hretry := ((hrestarts n).mp hn).2.1
            rw [runOnce_stops hpass] at hretry
            cases hretry
        subst hzero
        rcases hcase with rfl | hfalse
        · omega
        · rw [runOnce_stops hpass, hfalse]
    refine ⟨fun n => ?_, fun n a hnext ha => ?_, fun n hn hbreaks => ?_⟩
    · refine (hrestarts n).trans ⟨fun ⟨hn, hretry, hmax⟩ =>
        ⟨hn, (hfails n hn hmax).mp hretry, hmax⟩, ?_⟩
      exact fun ⟨hn, hearly, hmax⟩ => ⟨hn, (hfails n hn hmax).mpr hearly, hmax⟩
    · have ha' := runFrom_get ha
      rw [Nat.zero_add] at ha'
      rw [ha']
      exact runOnce_silent ((hrestarts n).mp hnext).2.1
    · by_cases hlast : n + 1 < (LLMClient.run dec r p replies maxTransportRetries).attempts.length
      · exact .inl hlast
      · refine .inr ?_
        obtain ⟨k, hlen, hout⟩ := runFrom_outcome (runOnce dec r p replies)
          maxTransportRetries 0 maxTransportRetries
        have hlen : k + 1 = (LLMClient.run dec r p replies maxTransportRetries).attempts.length :=
          hlen
        obtain rfl : k = n := by omega
        obtain ⟨e, he⟩ := runOnce_breaksOff dec p hbreaks
        exact ⟨e, hout.trans (by rw [Nat.zero_add]; exact he)⟩

/-! ## A connection that fails once -/

def plainReader : Reader where
  loads := fun s =>
    if s = "\x7b\"type\": \"message_stop\"\x7d" then some (.obj [("type", .str "message_stop")])
    else none
  strip := fun s => s

/-- The first connection fails, the second sends an empty message. -/
def failsOnce : Replies :=
  .streamed fun n => if n = 0 then .failed ⟨.connection, none, none, "connection refused"⟩
    else .lines [.text "data:\x7b\"type\": \"message_stop\"\x7d"] none

def emptyDecoder : Decoder where
  str := fun _ => ""
  int := fun _ => none
  dict := fun _ => none
  loads := fun s => if s = "\x7b\x7d" then some (.obj []) else none
  loads_empty := loads_emptyObject

/-- The Messages adapter gives up after a connection failure. -/
theorem messages_not_retried : failsOnce.failsEarly plainReader 0 = true ∧
    (LLMClient.run emptyDecoder plainReader .messages failsOnce 3).attempts.length = 1 ∧
    (LLMClient.run emptyDecoder plainReader .messages failsOnce 3).outcome =
      .error (.output "connection refused") ∧
    ¬ RetryContract plainReader failsOnce 3
      (LLMClient.run emptyDecoder plainReader .messages failsOnce 3) := by
  refine ⟨rfl, rfl, rfl, fun h => ?_⟩
  have hnext := (h.restarts 0).mpr ⟨Nat.zero_lt_one, rfl, by decide⟩
  exact absurd hnext (by decide)

end MiniAgent.Provider

import Mathlib.Data.List.Basic

/-!
# Listening to a channel

A channel forwards what is published to whoever is subscribed at the moment. A listener has the
messages that were forwarded to it and not taken yet; when it leaves, they are gone. Beside them it
remembers since when it is subscribed, and the numbers of the messages it has ever taken.

So it takes messages at most once and in the order of publication, over all its subscriptions,
and none is left out from the beginning of a subscription to the place it has come to.
-/

namespace Subscription

structure Listener (μ : Type) where
  pending : Option (List μ)
  since : Nat
  taken : List Nat

namespace Listener

variable {μ : Type}

def idle : Listener μ := ⟨none, 0, []⟩

/-- Subscribed when so many messages have been published. -/
def subscribe (published : Nat) (l : Listener μ) : Listener μ :=
  { l with pending := some [], since := published }

def deliver (message : μ) (l : Listener μ) : Listener μ :=
  { l with pending := l.pending.map (· ++ [message]) }

def leave (l : Listener μ) : Listener μ := { l with pending := none }

/-- The number of the next message of a subscription. -/
def position (published : Nat) (queue : List μ) : Nat := published - queue.length

/-- The first of the pending messages is taken; `rest` stays. -/
def take (published : Nat) (message : μ) (rest : List μ) (l : Listener μ) : Listener μ :=
  { l with pending := some rest, taken := l.taken ++ [position published (message :: rest)] }

/-- Where a listener is in the history of the channel. -/
structure Follows (history : List μ) (l : Listener μ) : Prop where
  ordered : l.taken.Pairwise (· < ·)
  published : ∀ n ∈ l.taken, n < history.length
  suffix : ∀ queue, l.pending = some queue → queue <:+ history
  since : ∀ queue, l.pending = some queue → l.since ≤ position history.length queue
  passed : ∀ queue, l.pending = some queue → ∀ n ∈ l.taken, n < position history.length queue
  complete : ∀ queue, l.pending = some queue → ∀ n, l.since ≤ n →
    n < position history.length queue → n ∈ l.taken

variable {history : List μ} {l : Listener μ} {message : μ} {rest : List μ}

theorem follows_idle (history : List μ) : Follows history idle where
  ordered := .nil
  published := by simp [idle]
  suffix := by simp [idle]
  since := by simp [idle]
  passed := by simp [idle]
  complete := by simp [idle]

theorem Follows.leave (follows : Follows history l) : Follows history l.leave where
  ordered := follows.ordered
  published := follows.published
  suffix := by simp [Listener.leave]
  since := by simp [Listener.leave]
  passed := by simp [Listener.leave]
  complete := by simp [Listener.leave]

theorem Follows.subscribe (follows : Follows history l) :
    Follows history (l.subscribe history.length) where
  ordered := follows.ordered
  published := follows.published
  suffix := by
    rintro queue ⟨⟩
    exact List.nil_suffix
  since := by
    rintro queue ⟨⟩
    exact Nat.le_refl _
  passed := by
    rintro queue ⟨⟩
    exact follows.published
  complete := by
    rintro queue ⟨⟩ n from_ upto
    exact absurd upto (Nat.not_lt.mpr from_)

/-- What is published is forwarded. -/
theorem Follows.publish (follows : Follows history l) (message : μ) :
    Follows (history ++ [message]) (l.deliver message) := by
  have same : ∀ queue queue', queue' = queue ++ [message] →
      position (history ++ [message]).length queue' = position history.length queue := by
    rintro queue _ rfl
    simp [position]
  have pending : ∀ queue', (l.deliver message).pending = some queue' →
      ∃ queue, l.pending = some queue ∧ queue' = queue ++ [message] := by
    intro queue' h
    obtain ⟨queue, here, rfl⟩ := Option.map_eq_some_iff.mp h
    exact ⟨queue, here, rfl⟩
  refine ⟨follows.ordered, fun n mem => ?_, fun queue' h => ?_, fun queue' h => ?_,
    fun queue' h => ?_, fun queue' h => ?_⟩
  · rw [List.length_append]
    exact Nat.lt_add_right _ (follows.published n mem)
  all_goals obtain ⟨queue, here, shape⟩ := pending queue' h
  · obtain ⟨front, rfl⟩ := follows.suffix queue here
    exact ⟨front, by rw [shape, List.append_assoc]⟩
  all_goals rw [same queue queue' shape]
  · exact follows.since queue here
  · exact follows.passed queue here
  · exact follows.complete queue here

/-- The message that is taken is the next one of the history. -/
theorem Follows.next (follows : Follows history l) (pending : l.pending = some (message :: rest)) :
    history[position history.length (message :: rest)]? = some message := by
  obtain ⟨front, rfl⟩ := follows.suffix _ pending
  simp [position]

theorem Follows.take (follows : Follows history l) (pending : l.pending = some (message :: rest)) :
    Follows history (l.take history.length message rest) := by
  have suffix := follows.suffix _ pending
  have passed := follows.passed _ pending
  have length := suffix.length_le
  rw [List.length_cons] at length
  have next : position history.length rest =
      position history.length (message :: rest) + 1 := by
    simp only [position, List.length_cons]
    omega
  have fits : position history.length (message :: rest) < history.length := by
    simp only [position, List.length_cons]
    omega
  refine ⟨?_, ?_, ?_, ?_, ?_, ?_⟩
  · refine List.pairwise_append.mpr ⟨follows.ordered, List.pairwise_singleton _ _, ?_⟩
    intro n mem m last
    rw [List.mem_singleton.mp last]
    exact passed n mem
  · intro n mem
    obtain old | new := List.mem_append.mp mem
    · exact follows.published n old
    · rw [List.mem_singleton.mp new]
      exact fits
  · rintro queue ⟨⟩
    exact (List.suffix_cons message rest).trans suffix
  · rintro queue ⟨⟩
    rw [next]
    exact Nat.le_succ_of_le (follows.since _ pending)
  · rintro queue ⟨⟩ n mem
    rw [next]
    obtain old | new := List.mem_append.mp mem
    · exact Nat.lt_succ_of_lt (passed n old)
    · rw [List.mem_singleton.mp new]
      exact Nat.lt_succ_self _
  · rintro queue ⟨⟩ n from_ upto
    rw [next] at upto
    obtain here | before := Nat.eq_or_lt_of_le (Nat.le_of_lt_succ upto)
    · exact List.mem_append_right _ (List.mem_singleton.mpr here)
    · exact List.mem_append_left _ (follows.complete _ pending n from_ before)

end Listener

end Subscription

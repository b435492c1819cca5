import Dabugger.Lib.Arrays
import Dabugger.Tui.Types

/-! # The message queue

`enqueue_msg` and `dequeue_msg` of `dabugger.c`. The queue is an array that is shifted down; its
contents are a list that grows at its end and shrinks at its front. -/

namespace Dabugger.Main.Queue

open Dabugger.Lib.Arrays Dabugger.Base Dabugger.Tui.Types

/-- `TuiMsgQueue`. -/
structure TuiMsgQueue where
  queue : List TuiMsg := []
  count : ℕ := 0
  count_le : count ≤ queue.length := by simp

/-- `enqueue_msg`. -/
def enqueueMsg (msgQueue : TuiMsgQueue) (msg : TuiMsg) : TuiMsgQueue where
  queue := (resize .none (msgQueue.count + 1) msgQueue.queue).set msgQueue.count msg
  count := msgQueue.count + 1
  count_le := by rw [List.length_set, length_resize]

/-- `dequeue_msg`. -/
def dequeueMsg (msgQueue : TuiMsgQueue) : TuiMsg × TuiMsgQueue :=
  if msgQueue.count = 0 then (.none, msgQueue)
  else
    let msg := msgQueue.queue.getD 0 .none
    let queue := shiftDown .none msgQueue.count msgQueue.queue
    let count := msgQueue.count - 1
    (msg,
      { queue := if count ≠ 0 then resize .none count queue else queue
        count
        count_le := by
          split
          · exact (length_resize _ _ _).ge
          · next h => omega })

/-- The messages in the queue. -/
def TuiMsgQueue.contents (msgQueue : TuiMsgQueue) : List TuiMsg :=
  msgQueue.queue.take msgQueue.count

theorem length_contents (msgQueue : TuiMsgQueue) : msgQueue.contents.length = msgQueue.count := by
  rw [TuiMsgQueue.contents, List.length_take, Nat.min_eq_left msgQueue.count_le]

/-- **A message is put at the end.** -/
@[simp] theorem contents_enqueueMsg (msgQueue : TuiMsgQueue) (msg : TuiMsg) :
    (enqueueMsg msgQueue msg).contents = msgQueue.contents ++ [msg] := by
  have hset := set_resize TuiMsg.none msgQueue.count_le msg
  have hlen : (msgQueue.queue.take msgQueue.count ++ [msg]).length = msgQueue.count + 1 := by
    rw [List.length_append, List.length_singleton]
    exact congrArg (· + 1) (length_contents msgQueue)
  unfold TuiMsgQueue.contents enqueueMsg
  dsimp only
  rw [hset, ← hlen, List.take_length]

theorem dequeueMsg_nil {msgQueue : TuiMsgQueue} (h : msgQueue.contents = []) :
    dequeueMsg msgQueue = (.none, msgQueue) := by
  have hcount : msgQueue.count = 0 := by rw [← length_contents, h, List.length_nil]
  exact if_pos hcount

/-- **A message is taken from the front.** -/
theorem dequeueMsg_cons {msgQueue : TuiMsgQueue} {msg : TuiMsg} {msgs : List TuiMsg}
    (h : msgQueue.contents = msg :: msgs) :
    (dequeueMsg msgQueue).1 = msg ∧ (dequeueMsg msgQueue).2.contents = msgs := by
  have hcount : msgQueue.count = msgs.length + 1 := by
    rw [← length_contents, h, List.length_cons]
  have hle := msgQueue.count_le
  have hshift := take_shiftDown TuiMsg.none (n := msgQueue.count) (by omega) hle
  change _ = msgQueue.contents.tail at hshift
  rw [h, List.tail_cons] at hshift
  unfold dequeueMsg
  rw [if_neg (by omega)]
  refine ⟨?_, ?_⟩
  · change msgQueue.queue.getD 0 .none = msg
    have hget := congrArg (fun msgs => msgs.getD 0 TuiMsg.none) h
    rw [TuiMsgQueue.contents] at hget
    simpa [List.getElem?_take, hcount] using hget
  · rw [TuiMsgQueue.contents]
    dsimp only
    split
    · rw [resize_of_le _ (by rw [length_shiftDown]; omega), List.take_take, Nat.min_self, hshift]
    · exact hshift

/-! ### The next message -/

/-- The messages of the queue that are not `MSG_NONE`. -/
def TuiMsgQueue.pending (msgQueue : TuiMsgQueue) : List TuiMsg :=
  msgQueue.contents.filter (· ≠ .none)

/-- The `do` loop of `main`; the first argument bounds the iterations. -/
def nextMsg : ℕ → TuiMsgQueue → Except Fault (TuiMsg × TuiMsgQueue)
  | 0, _ => .error .diverges
  | n + 1, msgQueue =>
    let (currentMsg, msgQueue) := dequeueMsg msgQueue
    if msgQueue.count > 0 ∧ currentMsg = .none then nextMsg n msgQueue
    else .ok (currentMsg, msgQueue)

/-- **The next message** is the first one that is not `MSG_NONE`; if there is none, the queue is
empty. -/
theorem nextMsg_eq : ∀ {n : ℕ} {msgQueue : TuiMsgQueue}, msgQueue.count < n →
    ∃ msgQueue', nextMsg n msgQueue = .ok (msgQueue.pending.headD .none, msgQueue') ∧
      msgQueue'.pending = msgQueue.pending.tail ∧
      (msgQueue.pending = [] → msgQueue'.count = 0)
  | 0, _, h => absurd h (Nat.not_lt_zero _)
  | n + 1, msgQueue, h => by
    cases hc : msgQueue.contents with
    | nil =>
      have hcount : msgQueue.count = 0 := by rw [← length_contents, hc, List.length_nil]
      have hp : msgQueue.pending = [] := by rw [TuiMsgQueue.pending, hc, List.filter_nil]
      refine ⟨msgQueue, ?_, by rw [hp, List.tail_nil], fun _ => hcount⟩
      rw [nextMsg, dequeueMsg_nil hc, hp]
      dsimp only
      rw [if_neg (by omega)]
      rfl
    | cons msg msgs =>
      obtain ⟨hmsg, hmsgs⟩ := dequeueMsg_cons hc
      have hcount : (dequeueMsg msgQueue).2.count = msgs.length := by
        rw [← length_contents, hmsgs]
      have hcount' : msgQueue.count = msgs.length + 1 := by
        rw [← length_contents, hc, List.length_cons]
      have hpending : (dequeueMsg msgQueue).2.pending = msgs.filter (· ≠ .none) := by
        rw [TuiMsgQueue.pending, hmsgs]
      rw [nextMsg]
      dsimp only
      rw [hmsg]
      by_cases hnone : msg = .none
      · have hp : msgQueue.pending = (dequeueMsg msgQueue).2.pending := by
          rw [hpending, TuiMsgQueue.pending, hc, List.filter_cons_of_neg (by simp [hnone])]
        by_cases hmore : (dequeueMsg msgQueue).2.count > 0
        · rw [if_pos ⟨hmore, hnone⟩, hp]
          exact nextMsg_eq (by omega)
        · have hmsgs' : (dequeueMsg msgQueue).2.pending = [] := by
            rw [hpending, List.length_eq_zero_iff.mp (by omega : msgs.length = 0), List.filter_nil]
          rw [if_neg fun hm => hmore hm.1, hp, hmsgs', hnone]
          exact ⟨_, rfl, hmsgs', fun _ => by omega⟩
      · have hp : msgQueue.pending = msg :: msgs.filter (· ≠ .none) := by
          rw [TuiMsgQueue.pending, hc, List.filter_cons_of_pos (by simp [hnone])]
        rw [if_neg fun hm => hnone hm.2, hp]
        exact ⟨_, rfl, hpending, nofun⟩

end Dabugger.Main.Queue

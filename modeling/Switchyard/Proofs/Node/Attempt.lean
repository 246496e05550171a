import Mathlib.Algebra.Group.Nat.Defs
import Switchyard.Proofs.Command.StatusText
import Switchyard.Proofs.Handler.Contract

/-!
# One attempt at a client

An attempt runs one command and keeps what came of it. What came of it has the key of the command
and counts one retry more if the command was pending before. It is never new; if it is pending, it
concerns a device and has attempts left. In the ledger it stands under its key, and all other
commands stay, except for the one that the command itself may have deleted.

An attempt has two halves: the command is read and handed over, and then it is carried out and the
outcome is kept. Either half may find that the counter does not go so far, and then nothing is kept.
There is room for both if the counter is not among the last two numbers.

## Main definitions

* `Command.tries`, `Command.HasRoom` : the attempts made so far, and room to count one more.
* `Ledger.HandsOver` : a command that was read from a ledger and handed over.
* `Node.outcome?` : what an attempt comes to, if anything is kept.
* `Command.Comes` : what the outcome of an attempt may be.

## Main results

* `Command.attempted_eq_some_iff`, `Command.settled_eq` : the two halves, for every counter.
* `Client.comes_of_carryOut`, `Client.get?_carryOut` : the second half at a client.
* `Client.comes_of_outcome?`, `Client.get?_attempt` : a whole attempt at a client.
-/

namespace Switchyard

/-! ### Counting -/

namespace Command

variable {c o a given : Command} {owner : String} {inv : Inventory}

theorem next?_eq_some_iff {n m : UInt32} : next? n = some m ↔ m.toNat = n.toNat + 1 := by
  have hn := n.toNat_lt
  have hm := m.toNat_lt
  rw [next?, UInt32.size]
  split
  next hroom =>
    have hsum : (n + 1).toNat = n.toNat + 1 := by
      rw [UInt32.toNat_add, UInt32.toNat_one, Nat.mod_eq_of_lt hroom]
    rw [Option.some.injEq, ← UInt32.toNat_inj, hsum, eq_comm]
  next hfull => simp only [reduceCtorEq, false_iff]; omega

theorem next?_eq_none_iff {n : UInt32} : next? n = none ↔ n.toNat = 2 ^ 32 - 1 := by
  have hn := n.toNat_lt
  rw [next?, UInt32.size]
  split <;> simp only [reduceCtorEq, false_iff, true_iff] <;> omega

/-- How often a command was attempted: once more than it was retried if it waits. -/
def tries (c : Command) : Nat :=
  if c.status.isPending then c.retries.toNat + 1 else c.retries.toNat

theorem retries_le_tries (c : Command) : c.retries.toNat ≤ c.tries := by
  rw [tries]
  split <;> omega

theorem tries_le (c : Command) : c.tries ≤ c.retries.toNat + 1 := by
  rw [tries]
  split <;> omega

theorem tries_of_isPending (h : c.status.isPending = true) : c.tries = c.retries.toNat + 1 :=
  if_pos h

/-- What goes into an attempt counts the attempts made so far, and has the name of the node. -/
theorem attempted_eq_some_iff : c.attempted owner = some given ↔
    given.retries.toNat = c.tries ∧ given = { c with node := owner, retries := given.retries } := by
  rw [attempted, tries]
  split
  next =>
    rw [Option.map_eq_some_iff]
    constructor
    · rintro ⟨retries, hnext, rfl⟩
      exact ⟨next?_eq_some_iff.1 hnext, rfl⟩
    · rintro ⟨hretries, hgiven⟩
      exact ⟨given.retries, next?_eq_some_iff.2 hretries, hgiven.symm⟩
  next =>
    rw [Option.some.injEq]
    constructor
    · rintro rfl
      exact ⟨rfl, rfl⟩
    · rintro ⟨hretries, hgiven⟩
      rw [UInt32.toNat_inj] at hretries
      rw [hgiven, hretries]

/-- An attempt cannot be counted if the attempts made so far are more than the counter counts. -/
theorem attempted_eq_none_iff : c.attempted owner = none ↔ c.tries = 2 ^ 32 := by
  have hlt := c.retries.toNat_lt
  rw [attempted, tries]
  split
  next =>
    rw [Option.map_eq_none_iff, next?_eq_none_iff]
    omega
  next => simp only [reduceCtorEq, false_iff]; omega

theorem exists_attempted (h : c.tries < 2 ^ 32) (owner : String) :
    ∃ given, c.attempted owner = some given :=
  Option.ne_none_iff_exists'.1 (mt attempted_eq_none_iff.1 h.ne)

theorem key_attempted (h : c.attempted owner = some given) : given.key = c.key := by
  rw [(attempted_eq_some_iff.1 h).2]
  rfl

theorem status_attempted (h : c.attempted owner = some given) : given.status = c.status := by
  rw [(attempted_eq_some_iff.1 h).2]

/-- What does not wait is settled as it is. -/
theorem settled_of_not_isPending (h : c.status.isPending = false) (inv : Inventory) :
    c.settled inv = some c := by
  simp [settled, h]

/-- What waits with three retries or more is cancelled, and all else is kept as it is. Only what
waits with as many retries as can be counted has no outcome. -/
theorem settled_eq (c : Command) (inv : Inventory) : c.settled inv =
    if c.status.isPending = true ∧ 3 ≤ c.retries.toNat then
      if c.retries.toNat = 2 ^ 32 - 1 then none
      else some (c.finish (.cancelled (c.missingDevice inv)))
    else some c := by
  cases hwait : c.status.isPending with
  | false => rw [settled_of_not_isPending hwait, if_neg (by simp)]
  | true =>
    rw [settled, if_pos hwait]
    cases hnext : next? c.retries with
    | none =>
      have hlast := next?_eq_none_iff.1 hnext
      rw [Option.map_none, if_pos ⟨rfl, by omega⟩, if_pos hlast]
    | some next =>
      have hsucc := next?_eq_some_iff.1 hnext
      have hlt := next.toNat_lt
      have hfour : next < maxAttempts ↔ next.toNat < 4 := UInt32.lt_iff_toNat_lt
      rw [Option.map_some]
      split
      next hleft =>
        have hfew := hfour.1 hleft
        rw [if_neg (by omega)]
      next hnone =>
        have hmany := mt hfour.2 hnone
        rw [if_pos ⟨rfl, by omega⟩, if_neg (by omega)]

theorem settled_eq_none_iff :
    c.settled inv = none ↔ c.status.isPending = true ∧ c.retries.toNat = 2 ^ 32 - 1 := by
  rw [settled_eq]
  split_ifs with hlast hfull
  · exact iff_of_true rfl ⟨hlast.1, hfull⟩
  · exact iff_of_false not_false fun h ↦ hfull h.2
  · exact iff_of_false not_false fun h ↦ hlast ⟨h.1, by omega⟩

/-- An outcome is the answer, or the answer cancelled. -/
theorem of_settled (h : a.settled inv = some o) :
    o = a ∧ (a.status.isPending = true → a.retries.toNat < 3) ∨
      o = a.finish (.cancelled (a.missingDevice inv)) ∧ a.status.isPending = true ∧
        3 ≤ a.retries.toNat := by
  rw [settled_eq] at h
  split_ifs at h with hlast
  · exact Or.inr ⟨(Option.some.inj h).symm, hlast⟩
  · exact Or.inl ⟨(Option.some.inj h).symm, fun hwait ↦ by
      by_contra hmany
      exact hlast ⟨hwait, Nat.le_of_not_lt hmany⟩⟩

theorem retries_of_settled (h : a.settled inv = some o) : o.retries = a.retries := by
  rcases of_settled h with ⟨rfl, -⟩ | ⟨rfl, -⟩ <;> rfl

theorem key_of_settled (h : a.settled inv = some o) : o.key = a.key := by
  rcases of_settled h with ⟨rfl, -⟩ | ⟨rfl, -⟩ <;> rfl

/-- If the command is still to be run, its counter can be counted on and be compared then. -/
def HasRoom (c : Command) : Prop := c.status.isRunnable = true → c.retries.toNat < 2 ^ 32 - 2

instance (c : Command) : Decidable c.HasRoom := inferInstanceAs (Decidable (_ → _))

theorem HasRoom.tries_lt (h : c.HasRoom) (hrun : c.status.isRunnable = true) :
    c.tries + 1 < 2 ^ 32 := by
  have hroom := h hrun
  have hle := c.tries_le
  omega

end Command

/-- All that is still to be run has room in its counter. -/
def Ledger.HasRoom (l : Ledger) : Prop := ∀ k c, l.get? k = some c → c.HasRoom

instance (l : Ledger) : Decidable l.HasRoom := decidable_of_iff _ Ledger.forall_get?_iff.symm

theorem Ledger.HasRoom.mergePulled {l : Ledger} (h : l.HasRoom) {cs : List Command}
    (hcs : ∀ c ∈ cs, c.HasRoom) : (l.mergePulled cs).2.HasRoom :=
  fun k ↦ Ledger.retries_lt_mergePulled (h k) hcs

/-! ### The two halves of an attempt -/

/-- A command was handed over from a ledger: it goes into an attempt of what stands under its key
and is still to be run. -/
def Ledger.HandsOver (l : Ledger) (given : Command) : Prop :=
  ∃ c, l.get? given.key = some c ∧ c.status.isRunnable = true ∧ c.attempted l.owner = some given

namespace Node

variable {ε : Type} {d : Dispatch ε} {k : Key} {n : Node ε} {given o : Command}

theorem beginning_eq_handOver_iff : n.beginning k = .handOver given ↔
    ∃ c, n.ledger.get? k = some c ∧ c.status.isRunnable = true ∧
      c.attempted n.ledger.owner = some given := by
  rw [beginning]
  constructor
  · intro h
    split at h
    next => cases h
    next c hc =>
      split_ifs at h with hrun
      split at h
      next g hg =>
        obtain rfl := Beginning.handOver.inj h
        exact ⟨c, hc, hrun, hg⟩
      next => cases h
  · rintro ⟨c, hc, hrun, hg⟩
    simp only [hc, hrun, hg, if_true]

theorem beginning_eq_overflow_iff : n.beginning k = .overflow ↔
    ∃ c, n.ledger.get? k = some c ∧ c.status.isRunnable = true ∧
      c.attempted n.ledger.owner = none := by
  rw [beginning]
  constructor
  · intro h
    split at h
    next => cases h
    next c hc =>
      split_ifs at h with hrun
      split at h
      next => cases h
      next hg => exact ⟨c, hc, hrun, hg⟩
  · rintro ⟨c, hc, hrun, hg⟩
    simp only [hc, hrun, hg, if_true]

theorem beginning_eq_skip_iff : n.beginning k = .skip ↔
    ∀ c, n.ledger.get? k = some c → c.status.isTerminal = true := by
  rw [beginning]
  cases hc : n.ledger.get? k with
  | none => simp
  | some c =>
    cases hdone : c.status.isTerminal with
    | true => simp [Status.isRunnable, hdone]
    | false =>
      simp only [Status.isRunnable, hdone, Bool.not_false, if_true]
      cases c.attempted n.ledger.owner <;> simp [hdone]

/-- With room in the counters no turn ends the pass. -/
theorem beginning_ne_overflow (h : n.ledger.HasRoom) (k : Key) : n.beginning k ≠ .overflow := by
  intro hbegin
  obtain ⟨c, hc, hrun, hnone⟩ := beginning_eq_overflow_iff.1 hbegin
  have hlt := (h k c hc).tries_lt hrun
  rw [Command.attempted_eq_none_iff] at hnone
  omega

/-- What is handed over at the turn of a key has this key. -/
theorem handsOver_of_beginning (hn : n.ledger.Keyed) (h : n.beginning k = .handOver given) :
    n.ledger.HandsOver given ∧ given.key = k := by
  obtain ⟨c, hc, hrun, hg⟩ := beginning_eq_handOver_iff.1 h
  have hkey : given.key = k := (Command.key_attempted hg).trans (hn k c hc)
  exact ⟨⟨c, hkey ▸ hc, hrun, hg⟩, hkey⟩

theorem fst_carryOut (d : Dispatch ε) (given : Command) (n : Node ε) :
    (n.carryOut d given).1 = (d.run given n).1.settled (d.run given n).2.inventory := by
  rw [carryOut]
  cases h : (d.run given n).1.settled (d.run given n).2.inventory <;> simp only [h]

theorem snd_carryOut_of_some (h : (n.carryOut d given).1 = some o) :
    (n.carryOut d given).2 = (d.run given n).2.complete o := by
  rw [fst_carryOut] at h
  simp only [carryOut, h]

theorem snd_carryOut_of_none (h : (n.carryOut d given).1 = none) :
    (n.carryOut d given).2 = (d.run given n).2 := by
  rw [fst_carryOut] at h
  simp only [carryOut, h]

theorem attempt_of_skip (h : n.beginning k = .skip) : n.attempt d k = (some false, n) := by
  simp only [attempt, h]

theorem attempt_of_overflow (h : n.beginning k = .overflow) : n.attempt d k = (none, n) := by
  simp only [attempt, h]

theorem attempt_of_handOver (h : n.beginning k = .handOver given) : n.attempt d k =
    ((n.carryOut d given).1.map fun _ ↦ true, (n.carryOut d given).2) := by
  simp only [attempt, h]

/-- What an attempt of the command under a key comes to, if anything is kept. -/
def outcome? (d : Dispatch ε) (k : Key) (n : Node ε) : Option Command :=
  match n.beginning k with
  | .handOver given => (n.carryOut d given).1
  | _ => none

theorem outcome?_of_handOver (h : n.beginning k = .handOver given) :
    n.outcome? d k = (n.carryOut d given).1 := by
  simp only [outcome?, h]

/-- An outcome is kept of a command that was handed over. -/
theorem exists_of_outcome? (h : n.outcome? d k = some o) :
    ∃ given, n.beginning k = .handOver given ∧ (n.carryOut d given).1 = some o := by
  unfold outcome? at h
  split at h
  next given hbegin => exact ⟨given, hbegin, h⟩
  next => cases h

/-- An attempt with an outcome counts as made. -/
theorem fst_attempt_of_outcome? (h : n.outcome? d k = some o) :
    (n.attempt d k).1 = some true := by
  obtain ⟨given, hbegin, ho⟩ := exists_of_outcome? h
  rw [attempt_of_handOver hbegin, ho, Option.map_some]

theorem attemptAll_nil (d : Dispatch ε) (n : Node ε) : n.attemptAll d [] = (some 0, n) := rfl

/-- If the first attempt ends the pass, no others are made. -/
theorem attemptAll_cons_of_none {ks : List Key} (h : (n.attempt d k).1 = none) :
    n.attemptAll d (k :: ks) = (none, (n.attempt d k).2) := by
  rw [attemptAll]
  split
  next heq => rw [heq]
  next heq => rw [heq] at h; cases h

theorem attemptAll_cons_of_some {ks : List Key} {made : Bool} (h : (n.attempt d k).1 = some made) :
    n.attemptAll d (k :: ks) = (((n.attempt d k).2.attemptAll d ks).1.map (made.toNat + ·),
      ((n.attempt d k).2.attemptAll d ks).2) := by
  rw [attemptAll]
  split
  next heq => rw [heq] at h; cases h
  next heq =>
    rw [heq] at h ⊢
    obtain rfl := Option.some.inj h
    rfl

/-- What every attempt keeps of a node, attempts one after the other keep. -/
theorem attemptAll_induction {P : Node ε → Prop} (h : ∀ k n, P n → P (n.attempt d k).2)
    (hn : P n) (ks : List Key) : P (n.attemptAll d ks).2 := by
  induction ks generalizing n with
  | nil => exact hn
  | cons k ks ih =>
    cases hmade : (n.attempt d k).1 with
    | none =>
      rw [attemptAll_cons_of_none hmade]
      exact h k n hn
    | some made =>
      rw [attemptAll_cons_of_some hmade]
      exact ih (h k n hn)

end Node

/-! ### Outcomes -/

/-- What may come of a command that was attempted at the named node. -/
structure Command.Comes (owner : String) (c o : Command) : Prop where
  text : o.text = c.text
  client : o.client = c.client
  timestamp : o.timestamp = c.timestamp
  flags : o.flags = c.flags
  node : o.node = owner
  retries : o.retries.toNat = c.tries
  status : o.status.isTerminal = true ∨ o.status.isPending = true ∧
    o.verb ∈ Handler.deviceVerbs ∧ o.retries.toNat + 1 < maxAttempts.toNat

namespace Command

variable {c o a given : Command} {owner : String} {inv : Inventory}

theorem deletes?_congr (h : o.text = c.text) : o.deletes? = c.deletes? := by
  rw [deletes?, deletes?, words, words, h]

theorem Comes.status_ne_new (h : Comes owner c o) : o.status ≠ .new := by
  intro hnew
  rcases h.status with hdone | ⟨hwait, -⟩
  · rw [hnew] at hdone; cases hdone
  · rw [hnew] at hwait; cases hwait

/-- An answer to an attempted command, once settled, is an outcome. -/
theorem IsAnswer.comes (h : IsAnswer given a) (hgiven : c.attempted owner = some given)
    (ho : a.settled inv = some o) : Comes owner c o := by
  obtain ⟨hretries, hsame⟩ := attempted_eq_some_iff.1 hgiven
  have htext : given.text = c.text := by rw [hsame]
  have hclient : given.client = c.client := by rw [hsame]
  have htimestamp : given.timestamp = c.timestamp := by rw [hsame]
  have hflags : given.flags = c.flags := by rw [hsame]
  have hnode : given.node = owner := by rw [hsame]
  have hcount : a.retries.toNat = c.tries := by rw [h.retries, hretries]
  rcases of_settled ho with ⟨rfl, hfew⟩ | ⟨rfl, -⟩
  · refine ⟨h.text.trans htext, h.client.trans hclient, h.timestamp.trans htimestamp,
      h.flags.trans hflags, h.node.trans hnode, hcount, ?_⟩
    rcases h.status with hdone | ⟨hwait, hverb⟩
    · exact Or.inl hdone
    · have hverb' : o.verb ∈ Handler.deviceVerbs := by
        rwa [verb, words, h.text]
      exact Or.inr ⟨hwait, hverb', Nat.succ_lt_succ (hfew hwait)⟩
  · exact ⟨h.text.trans htext, h.client.trans hclient, h.timestamp.trans htimestamp,
      h.flags.trans hflags, h.node.trans hnode, hcount, Or.inl rfl⟩

end Command

namespace Client

open Command Node

variable {ω : Type} {now : Time.Instant} {p : Protocol ω} {k : Key} {n : Client ω}
  {c o given : Command}

/-! ### The second half -/

/-- What is kept of a command that was handed over, and the command it is the outcome of. -/
theorem comes_of_carryOut (hg : n.ledger.HandsOver given)
    (ho : (n.carryOut (dispatch now p) given).1 = some o) :
    ∃ c, n.ledger.get? given.key = some c ∧ c.status.isRunnable = true ∧
      Comes n.ledger.owner c o := by
  obtain ⟨c, hc, hrun, hgiven⟩ := hg
  rw [fst_carryOut] at ho
  exact ⟨c, hc, hrun, (isAnswer_run now p given n).comes hgiven ho⟩

/-- There is an outcome if the next attempt can be counted. -/
theorem exists_fst_carryOut {owner : String} (hgiven : c.attempted owner = some given)
    (hlt : c.tries + 1 < 2 ^ 32) (now : Time.Instant) (p : Protocol ω) (n : Client ω) :
    ∃ o, (n.carryOut (dispatch now p) given).1 = some o := by
  rw [fst_carryOut, ← Option.ne_none_iff_exists', ne_eq, settled_eq_none_iff,
    (isAnswer_run now p given n).retries, (attempted_eq_some_iff.1 hgiven).1]
  omega

theorem key_of_carryOut (ho : (n.carryOut (dispatch now p) given).1 = some o) :
    o.key = given.key := by
  rw [fst_carryOut] at ho
  exact (key_of_settled ho).trans (isAnswer_run now p given n).key

/-- The outcome stands under its key. Everything else stays, but for a command that was deleted. -/
theorem get?_carryOut (hg : n.ledger.HandsOver given)
    (ho : (n.carryOut (dispatch now p) given).1 = some o) (k : Key) :
    (n.carryOut (dispatch now p) given).2.ledger.get? k =
      if o.deletes? = some k then none else if k = given.key then some o
      else n.ledger.get? k := by
  obtain ⟨c, hc, hrun, hcomes⟩ := comes_of_carryOut hg ho
  have hkey := key_of_carryOut ho
  have hdel : given.deletes? = o.deletes? := deletes?_congr (congrArg Key.text hkey.symm)
  have hterm : c.status.isTerminal = false := Status.isRunnable_iff.1 hrun
  rw [snd_carryOut_of_some ho]
  change ((((dispatch now p).run given n).2.ledger.complete o).2).get? k = _
  rw [Ledger.get?_complete, hkey, get?_run, hdel]
  by_cases hk : given.key = k
  · subst hk
    rw [if_pos rfl, if_pos rfl]
    split_ifs
    · rfl
    · simp [Ledger.afterOutcome, hc, hterm]
  · rw [if_neg hk, if_neg (Ne.symm hk)]

/-- If there is no outcome, nothing is kept and nothing was deleted. -/
theorem get?_carryOut_of_none (ho : (n.carryOut (dispatch now p) given).1 = none) (k : Key) :
    (n.carryOut (dispatch now p) given).2.ledger.get? k = n.ledger.get? k := by
  rw [snd_carryOut_of_none ho, get?_run, if_neg]
  intro hdel
  -- only commands for devices wait, and they delete nothing
  have hverb := verb_of_deletes? hdel
  rw [fst_carryOut, settled_eq_none_iff] at ho
  rcases (isAnswer_run now p given n).status with hdone | ⟨-, hdevice⟩
  · rw [Status.isPending_of_isTerminal hdone] at ho
    cases ho.1
  · rw [hverb] at hdevice
    exact absurd hdevice (by decide)

@[simp] theorem owner_carryOut (now : Time.Instant) (p : Protocol ω) (given : Command)
    (n : Client ω) : (n.carryOut (dispatch now p) given).2.ledger.owner = n.ledger.owner := by
  cases ho : (n.carryOut (dispatch now p) given).1 with
  | none => rw [snd_carryOut_of_none ho, owner_run]
  | some o =>
    rw [snd_carryOut_of_some ho]
    exact (Ledger.owner_complete ..).trans (owner_run now p given n)

/-- Carrying a command out keeps commands under their own keys. -/
theorem keyed_carryOut (hn : n.ledger.Keyed) (hg : n.ledger.HandsOver given)
    (now : Time.Instant) (p : Protocol ω) :
    (n.carryOut (dispatch now p) given).2.ledger.Keyed := by
  intro k c hc
  cases ho : (n.carryOut (dispatch now p) given).1 with
  | none =>
    rw [get?_carryOut_of_none ho] at hc
    exact hn k c hc
  | some o =>
    rw [get?_carryOut hg ho] at hc
    split_ifs at hc with hdel hk
    · rw [← Option.some.inj hc, key_of_carryOut ho, hk]
    · exact hn k c hc

/-- What is done stays while a command is carried out, unless it is deleted. -/
theorem get?_carryOut_of_isTerminal (hg : n.ledger.HandsOver given)
    (hc : n.ledger.get? k = some c) (hdone : c.status.isTerminal = true)
    (hdel : ∀ o, (n.carryOut (dispatch now p) given).1 = some o → o.deletes? ≠ some k) :
    (n.carryOut (dispatch now p) given).2.ledger.get? k = some c := by
  cases ho : (n.carryOut (dispatch now p) given).1 with
  | none => rw [get?_carryOut_of_none ho, hc]
  | some o =>
    have hne : k ≠ given.key := by
      rintro rfl
      obtain ⟨c', hc', hrun, -⟩ := hg
      obtain rfl := Option.some.inj (hc.symm.trans hc')
      exact absurd hrun (Status.not_isRunnable_of_isTerminal hdone)
    rw [get?_carryOut hg ho, if_neg (hdel o ho), if_neg hne, hc]

/-! ### Whole attempts -/

/-- The outcome of an attempt at a client, and the command it is the outcome of. -/
theorem comes_of_outcome? (hn : n.ledger.Keyed) (h : n.outcome? (dispatch now p) k = some o) :
    ∃ c, n.ledger.get? k = some c ∧ c.status.isRunnable = true ∧
      Comes n.ledger.owner c o := by
  obtain ⟨given, hbegin, ho⟩ := exists_of_outcome? h
  obtain ⟨hg, rfl⟩ := handsOver_of_beginning hn hbegin
  exact comes_of_carryOut hg ho

/-- With room in the counter there is an outcome. -/
theorem exists_outcome? (hc : n.ledger.get? k = some c) (hrun : c.status.isRunnable = true)
    (hroom : c.HasRoom) (now : Time.Instant) (p : Protocol ω) :
    ∃ o, n.outcome? (dispatch now p) k = some o := by
  have hlt := hroom.tries_lt hrun
  obtain ⟨given, hgiven⟩ := exists_attempted (Nat.lt_of_succ_lt hlt) n.ledger.owner
  rw [outcome?_of_handOver (beginning_eq_handOver_iff.2 ⟨c, hc, hrun, hgiven⟩)]
  exact exists_fst_carryOut hgiven hlt now p n

@[simp] theorem owner_attempt (now : Time.Instant) (p : Protocol ω) (k : Key) (n : Client ω) :
    (n.attempt (dispatch now p) k).2.ledger.owner = n.ledger.owner := by
  cases hbegin : n.beginning k with
  | skip => rw [attempt_of_skip hbegin]
  | overflow => rw [attempt_of_overflow hbegin]
  | handOver given => rw [attempt_of_handOver hbegin, owner_carryOut]

/-- After an attempt the outcome stands under its key. Everything else stays, but for a command
that was deleted. -/
theorem get?_attempt (hn : n.ledger.Keyed) (ho : n.outcome? (dispatch now p) k = some o)
    (k' : Key) : (n.attempt (dispatch now p) k).2.ledger.get? k' =
      if o.deletes? = some k' then none else if k' = k then some o else n.ledger.get? k' := by
  obtain ⟨given, hbegin, hkept⟩ := exists_of_outcome? ho
  obtain ⟨hg, rfl⟩ := handsOver_of_beginning hn hbegin
  rw [attempt_of_handOver hbegin]
  exact get?_carryOut hg hkept k'

/-- An attempt keeps commands under their own keys. -/
theorem keyed_attempt (hn : n.ledger.Keyed) (now : Time.Instant) (p : Protocol ω) (k : Key) :
    (n.attempt (dispatch now p) k).2.ledger.Keyed := by
  cases hbegin : n.beginning k with
  | skip => rwa [attempt_of_skip hbegin]
  | overflow => rwa [attempt_of_overflow hbegin]
  | handOver given =>
    rw [attempt_of_handOver hbegin]
    exact keyed_carryOut hn (handsOver_of_beginning hn hbegin).1 now p

end Client

end Switchyard

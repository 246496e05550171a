import Switchyard.Proofs.Ledger.Lookup

/-!
# The order in which pushes arrive

Clients push whole tables at any time, and nothing orders the pushes of different clients. What a
root holds under a key after any pushes is decided by what it held before and by the commands
pushed under this key, in the order in which they arrive. What was done stays. Otherwise the first
command that is done decides, whatever arrives before or after it, and the last one only if none
is. The flags are those that the key had first.

So as long as no two commands that are done compete for a key, the pushes may arrive in any order.

## Main definitions

* `Ledger.Push`, `Ledger.afterPushes` : pushes, and the ledger after some of them.
* `Ledger.arrivals`, `Ledger.decisive` : what arrives under a key, and which of it decides.
* `Ledger.settledBy` : what arrivals leave of what stood under their key.

## Main results

* `Ledger.foldl_arrive` : merging one after the other leaves what the arrivals decide.
* `Ledger.decisive_eq_of_perm` : a single command that is done decides in any order.
* `Ledger.outcome_of_pushes` : what any pushes leave, and when their order does not matter.
-/

namespace Switchyard

/-- The command with other flags. -/
def Command.withFlags (flags : Flags) (c : Command) : Command := { c with flags }

namespace Ledger

/-- A batch of commands, and the moment at which the root gets it. -/
structure Push where
  now : Time.Instant
  batch : List Command
  deriving Repr, DecidableEq

/-- The ledger after some pushes. -/
def afterPushes : List Push → Ledger → Ledger
  | [], l => l
  | p :: ps, l => afterPushes ps (l.mergePushed p.now p.batch).2

/-- The commands of some pushes in the order in which they arrive. -/
def pushed (ps : List Push) : List Command := ps.flatMap (·.batch)

/-- The commands pushed under a key in the order in which they arrive. -/
def arrivals (k : Key) (ps : List Push) : List Command := (pushed ps).filter (·.key = k)

/-- The command that decides among those that arrive: the first that is done, or else the last. -/
def decisive (cs : List Command) : Option Command :=
  cs.find? (·.status.isTerminal) <|> cs.getLast?

/-- What arrivals leave of what stood under their key. What is done stays. Otherwise the decisive
command is kept with the flags that the key had first, be it those of what stood there or those of
the first arrival. -/
def settledBy (cs : List Command) : Option Command → Option Command
  | some s =>
    if s.status.isTerminal then some s
    else some ((decisive cs).elim s (·.withFlags s.flags))
  | none =>
    match cs with
    | [] => none
    | first :: _ => (decisive cs).map (·.withFlags first.flags)

variable {l : Ledger} {k : Key} {c s : Command} {cs : List Command} {ps : List Push}

/-! ### One arrival after the other -/

/-- What a command with a timestamp leaves of what stood under its key. -/
def arrive (stood : Option Command) (c : Command) : Option Command :=
  match stood with
  | none => some c
  | some s => some (if s.status.isTerminal then s else c.withFlags s.flags)

theorem stamped_of_isSome (h : c.timestamp.isSome = true) (now : Time.Instant) :
    c.stamped now = c := by
  obtain ⟨t, ht⟩ := Option.isSome_iff_exists.1 h
  rw [Command.stamped, ht, Option.getD_some, ← ht]

theorem afterPush_eq_arrive (h : c.timestamp.isSome = true) (now : Time.Instant)
    (stood : Option Command) : some (afterPush now c stood) = arrive stood c := by
  cases stood with
  | none => rw [afterPush, arrive, stamped_of_isSome h]
  | some s => rw [afterPush, arrive, stamped_of_isSome h]; rfl

/-- Under each key a push of commands with timestamps is merged one after the other. -/
theorem get?_mergePushed_eq_foldl_arrive (h : ∀ c ∈ cs, c.timestamp.isSome = true)
    (now : Time.Instant) (l : Ledger) (k : Key) :
    (l.mergePushed now cs).2.get? k = (cs.filter (·.key = k)).foldl arrive (l.get? k) := by
  rw [get?_mergePushed]
  exact List.foldl_ext _ _ _ fun stood c hc ↦
    afterPush_eq_arrive (h c (List.mem_of_mem_filter hc)) now stood

/-- Under each key the arrivals are merged one after the other. -/
theorem get?_afterPushes (h : ∀ c ∈ pushed ps, c.timestamp.isSome = true) (l : Ledger) (k : Key) :
    (l.afterPushes ps).get? k = (arrivals k ps).foldl arrive (l.get? k) := by
  induction ps generalizing l with
  | nil => rfl
  | cons p ps ih =>
    have hbatch : ∀ c ∈ p.batch, c.timestamp.isSome = true := fun c hc ↦
      h c (List.mem_append_left _ hc)
    have hsplit : arrivals k (p :: ps) = p.batch.filter (·.key = k) ++ arrivals k ps := by
      rw [arrivals, pushed, List.flatMap_cons, List.filter_append]
      rfl
    rw [afterPushes, ih fun c hc ↦ h c (List.mem_append_right _ hc),
      get?_mergePushed_eq_foldl_arrive hbatch, hsplit, List.foldl_append]

/-! ### What decides -/

theorem decisive_cons_of_isTerminal (h : c.status.isTerminal = true) (cs : List Command) :
    decisive (c :: cs) = some c := by
  simp [decisive, h]

theorem decisive_cons (h : c.status.isTerminal = false) (cs : List Command) :
    decisive (c :: cs) = some ((decisive cs).getD c) := by
  rw [decisive, decisive, List.find?_cons_of_neg (by simp [h]), List.getLast?_cons]
  cases cs.find? (·.status.isTerminal) with
  | some d => rfl
  | none => cases cs.getLast? <;> rfl

theorem foldl_arrive_of_isTerminal (h : s.status.isTerminal = true) (cs : List Command) :
    cs.foldl arrive (some s) = some s := by
  induction cs with
  | nil => rfl
  | cons c cs ih => rw [List.foldl_cons, arrive, if_pos h, ih]

/-- Where nothing done stands, the decisive arrival is kept with the flags that stood there. -/
theorem foldl_arrive_of_runnable (h : s.status.isTerminal = false) (cs : List Command) :
    cs.foldl arrive (some s) = some ((decisive cs).elim s (·.withFlags s.flags)) := by
  induction cs generalizing s with
  | nil => rfl
  | cons c cs ih =>
    rw [List.foldl_cons, arrive, h]
    change cs.foldl arrive (some (c.withFlags s.flags)) = _
    cases hc : c.status.isTerminal with
    | true =>
      have hkept : (c.withFlags s.flags).status.isTerminal = true := hc
      rw [foldl_arrive_of_isTerminal hkept, decisive_cons_of_isTerminal hc]
      rfl
    | false =>
      have hkept : (c.withFlags s.flags).status.isTerminal = false := hc
      rw [ih hkept, decisive_cons hc]
      cases decisive cs <;> rfl

/-- Merging arrivals one after the other leaves what they decide. -/
theorem foldl_arrive (cs : List Command) (stood : Option Command) :
    cs.foldl arrive stood = settledBy cs stood := by
  cases stood with
  | some s =>
    cases hs : s.status.isTerminal with
    | true => rw [foldl_arrive_of_isTerminal hs, settledBy, if_pos hs]
    | false => rw [foldl_arrive_of_runnable hs, settledBy, hs]; rfl
  | none =>
    cases cs with
    | nil => rfl
    | cons first cs =>
      rw [List.foldl_cons, settledBy]
      change cs.foldl arrive (some first) = _
      cases hfirst : first.status.isTerminal with
      | true => rw [foldl_arrive_of_isTerminal hfirst, decisive_cons_of_isTerminal hfirst]; rfl
      | false =>
        rw [foldl_arrive_of_runnable hfirst, decisive_cons hfirst]
        cases decisive cs <;> rfl

/-! ### Any order -/

/-- The only command that is done decides, in whatever order the commands arrive. -/
theorem decisive_eq_of_perm {cs' : List Command} (hperm : cs'.Perm cs)
    (hone : cs.countP (·.status.isTerminal) = 1) : decisive cs' = decisive cs := by
  have hfilter := hperm.filter (·.status.isTerminal)
  rw [List.countP_eq_length_filter] at hone
  obtain ⟨c, hc⟩ := List.length_eq_one_iff.1 hone
  rw [hc, List.perm_singleton] at hfilter
  have hfirst : ∀ ds : List Command, ds.filter (·.status.isTerminal) = [c] →
      decisive ds = some c := by
    intro ds hds
    rw [decisive, ← List.head?_filter, hds]
    rfl
  rw [hfirst cs' hfilter, hfirst cs hc]

/-- After any pushes of commands with timestamps there stands under each key what stood there if it
was done, else the first arrival that is done, else the last arrival, with the flags that the key
had first. So if the root holds a command that is not done, and exactly one of its arrivals is, all
pushes of the same commands, in any order and cut into any batches, leave the same command. -/
theorem outcome_of_pushes (l : Ledger) (ps : List Push)
    (hstamped : ∀ c ∈ pushed ps, c.timestamp.isSome = true) (k : Key) :
    (l.afterPushes ps).get? k = settledBy (arrivals k ps) (l.get? k) ∧
    ∀ s, l.get? k = some s → s.status.isTerminal = false →
      (arrivals k ps).countP (·.status.isTerminal) ≤ 1 →
      (∃ c ∈ arrivals k ps, c.status.isTerminal = true) →
      ∀ ps', (pushed ps').Perm (pushed ps) →
        (l.afterPushes ps').get? k = (l.afterPushes ps).get? k := by
  have hclosed : ∀ qs, (∀ c ∈ pushed qs, c.timestamp.isSome = true) →
      (l.afterPushes qs).get? k = settledBy (arrivals k qs) (l.get? k) := fun qs hqs ↦ by
    rw [get?_afterPushes hqs, foldl_arrive]
  refine ⟨hclosed ps hstamped, fun s hs hrun hatmost hsome ps' hperm ↦ ?_⟩
  have hone : (arrivals k ps).countP (·.status.isTerminal) = 1 :=
    Nat.le_antisymm hatmost (List.countP_pos_iff.2 hsome)
  have hdecisive : decisive (arrivals k ps') = decisive (arrivals k ps) :=
    decisive_eq_of_perm (hperm.filter _) hone
  rw [hclosed ps hstamped, hclosed ps' fun c hc ↦ hstamped c (hperm.mem_iff.1 hc), hs]
  simp only [settledBy, hdecisive]

/-! ### A sweep that two clients report -/

/-- The sweep as a client reports it. -/
def swept (node : String) (status : Status) : Command :=
  { Command.new default "scan gwd" with node, status }

/-- A root that waits for the sweep, which is to be kept out of the system log. -/
def awaiting : Ledger :=
  ({ owner := "root" } : Ledger).store
    { Command.new default "scan gwd" with flags := { noSyslog := true } }

/-- One client reports that it waits, before and after the other one reports success. -/
def reports : List Push :=
  [⟨default, [swept "c1" (.pending "locked")]⟩,
    ⟨default, [swept "c2" .ok, swept "c1" (.pending "still locked")]⟩]

/-- The same reports, with the success between others in a batch that arrives first. -/
def reordered : List Push :=
  [⟨default, [swept "c1" (.pending "still locked"), swept "c2" .ok,
    swept "c1" (.pending "locked")]⟩]

/-- The success is kept with the flag of the root, in either order. -/
theorem outcome_of_reports :
    let kept := (awaiting.afterPushes reports).get? ⟨none, "scan gwd"⟩
    kept = some ((swept "c2" .ok).withFlags { noSyslog := true }) ∧
      (awaiting.afterPushes reordered).get? ⟨none, "scan gwd"⟩ = kept := by
  obtain ⟨hsettled, hanyOrder⟩ :=
    outcome_of_pushes awaiting reports (by decide) ⟨none, "scan gwd"⟩
  exact ⟨hsettled.trans (by decide),
    hanyOrder _ rfl (by decide) (by decide) (by decide) reordered (by decide)⟩

end Ledger

end Switchyard

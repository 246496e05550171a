import Switchyard.Proofs.Inventory.Operation

/-!
# When devices are called offline and online

Liveness checks follow one another, and between the marks of a check, as between checks, locks may
change and reports may be refused. Every check has its own moment, so the devices that it does not
mark are those that nobody saw in it. A check therefore does one of two things to a device: if some
answer was the device's, its misses are forgotten, and if no answer was, one more is counted.

So an offline alert is raised by the check that counts the second miss in a row, and the next answer
after it raises an online alert. The two alternate, however many answers a device gives in one check
and however long it stays away.

## Main definitions

* `Inventory.Check`, `Inventory.Check.Held` : a check with what came between its marks.
* `Inventory.Turn` : the turns of a run, checks and asides.
* `Inventory.Alternates` : alerts that a device is offline and online by turns.

## Main results

* `Inventory.passes_marks`, `Inventory.passes_counts` : the two halves of a check.
* `Inventory.alerts_alternate` : runs.
-/

namespace Switchyard.Inventory

/-! ### Runs -/

/-- Whether every one of some operations is as it has to be at its moment. -/
def Throughout (P : Inventory → Operation → Prop) : List Operation → Inventory → Prop
  | [], _ => True
  | op :: ops, inv => P inv op ∧ Throughout P ops (op.apply inv)

namespace Operation

/-- Whether an operation is a change of a lock or a report that is refused. -/
def IsAside (inv : Inventory) : Operation → Prop
  | .insert now report => (inv.insert now report).1 = false
  | .see .. => False
  | .miss _ => False
  | .setLock .. => True
  | .tryAcquire _ => True

/-- The address that an operation counts as missed. -/
def missed? : Operation → Option String
  | .miss mac => some mac
  | _ => none

/-- Whether an operation marks the device with a canonical address as seen. -/
def sees (mac : String) : Operation → Bool
  | .see _ s => Mac.canonical? s.mac = some mac
  | _ => false

end Operation

/-- Whether some operations mark the device with a canonical address as seen. -/
def answered (mac : String) (ops : List Operation) : Bool := ops.any (·.sees mac)

/-- A check that others come between: its moment, and the operations of its two halves, among them
some asides. -/
structure Check where
  stamp : Time.Instant
  marking : List Operation
  counting : List Operation

namespace Check

/-- The operations of a check. -/
def operations (c : Check) : List Operation := c.marking ++ c.counting

/-- A check as it is held: answers are marked in any order, and then every device that is not marked
is counted as missed. -/
structure Held (c : Check) (inv : Inventory) : Prop where
  marking : Throughout (fun inv op ↦ op.IsAside inv ∨ ∃ s, op = .see c.stamp s) c.marking inv
  counting : Throughout (fun inv op ↦ op.IsAside inv ∨ ∃ mac, op = .miss mac) c.counting
    (inv.after c.marking)
  missed : c.counting.filterMap Operation.missed? = (inv.after c.marking).unmarked c.stamp

/-- The check of some answers that nothing comes between. -/
def ofSightings (stamp : Time.Instant) (ss : List Sighting) (inv : Inventory) : Check where
  stamp := stamp
  marking := ss.map (.see stamp)
  counting := ((inv.after (ss.map (.see stamp))).unmarked stamp).map .miss

end Check

/-- What happens in a run: a liveness check, one that others come between, or an aside. -/
inductive Turn where
  | check (stamp : Time.Instant) (survey : Survey)
  | interrupted (c : Check)
  | aside (op : Operation)

namespace Turn

/-- The inventory after a turn. -/
def apply : Turn → Inventory → Inventory
  | .check stamp survey, inv => (inv.checkLiveness stamp survey).2
  | .interrupted c, inv => inv.after c.operations
  | .aside op, inv => op.apply inv

/-- The operations of a turn. -/
def record : Turn → Inventory → List Operation
  | .check stamp survey, inv => inv.checkRecord stamp survey
  | .interrupted c, _ => c.operations
  | .aside op, _ => [op]

/-- Whether a turn is as it has to be. -/
def Proper (inv : Inventory) : Turn → Prop
  | .check .. => True
  | .interrupted c => c.Held inv
  | .aside op => op.IsAside inv

/-- The moment of a check. Without an interface it has none. -/
def stamp? : Turn → Option Time.Instant
  | .check stamp survey =>
    match survey.interfaces with
    | .ok (_ :: _) => some stamp
    | _ => none
  | .interrupted c => some c.stamp
  | .aside _ => none

/-- Whether a turn has an answer of the device with a canonical address, on any interface and with
the address in any spelling. -/
def sees (mac : String) : Turn → Bool
  | .check _ survey =>
    (sightings survey (survey.interfaces.toOption.getD [])).any (Mac.canonical? ·.mac = some mac)
  | .interrupted c => answered mac c.marking
  | .aside _ => false

/-- Whether a turn counts a miss of the device with a canonical address. -/
def misses (mac : String) (inv : Inventory) (t : Turn) : Bool := .miss mac ∈ t.record inv

end Turn

/-- The inventory after some turns. -/
def afterTurns : List Turn → Inventory → Inventory
  | [], inv => inv
  | t :: ts, inv => afterTurns ts (t.apply inv)

/-- Whether every turn of a run is as it has to be at its moment. -/
def Runs : List Turn → Inventory → Prop
  | [], _ => True
  | t :: ts, inv => t.Proper inv ∧ Runs ts (t.apply inv)

/-- The moments of the checks of a run. -/
def stamps (ts : List Turn) : List Time.Instant := ts.filterMap Turn.stamp?

/-- Whether an alert says that the device with an address is offline or online. -/
def isSwing (mac : String) : Alert → Bool
  | .offline m => m == mac
  | .online m => m == mac
  | _ => false

/-- The alerts that say that a device is offline or online, of those raised since an inventory was
as it was before. -/
def swings (mac : String) (before inv : Inventory) : List Alert :=
  (inv.alerts.drop before.alerts.length).filter (isSwing mac)

/-- Whether alerts say by turns that a device is offline and online, the first of them that it is
offline if it was online before. -/
def Alternates (mac : String) : Bool → List Alert → Prop
  | _, [] => True
  | online, a :: as =>
    a = (if online then .offline mac else .online mac) ∧ Alternates mac (!online) as

variable {inv : Inventory} {mac : String} {d d' d'' : Device} {op : Operation}
  {ops ops' : List Operation} {as as' : List Alert} {stamp : Time.Instant}

/-! ### One operation -/

theorem mac_of_mem_sightingAlerts {a : Alert} {ip : String} (h : a ∈ sightingAlerts mac ip d) :
    a.mac = mac := by
  rcases List.mem_append.1 h with honline | hmoved
  · obtain rfl := List.mem_singleton.1 (List.mem_ite_nil_right.1 honline).2
    rfl
  · obtain rfl := List.mem_singleton.1 (List.mem_ite_nil_right.1 hmoved).2
    rfl

/-- What an operation makes of a stored device raises alerts about this device only. -/
theorem Operation.canonical?_of_mem_edit {a : Alert} (hmac : op.mac? = some mac)
    (h : a ∈ (op.edit mac d).alerts) : Mac.canonical? a.mac = some mac := by
  cases op with
  | see stamp s =>
    rw [mac_of_mem_sightingAlerts (d := d) h]
    exact Mac.canonical?_canonical hmac
  | miss target =>
    obtain rfl := List.mem_singleton.1 (List.mem_ite_nil_right.1 h).2
    exact hmac
  | _ => cases h

/-- An alert is about what an operation makes of a stored device, or it announces a new one. -/
theorem Operation.raised_cases {a : Alert} (h : a ∈ op.raised inv) : ∃ m, op.mac? = some m ∧
    ((∃ d, inv.devices.get? m = some d ∧ a ∈ (op.edit m d).alerts) ∨ a = .newDevice m) := by
  rw [raised_eq] at h
  cases hch : op.change? inv with
  | none => rw [hch] at h; cases h
  | some ch =>
    obtain ⟨m, e⟩ := ch
    obtain ⟨hm, he⟩ := Operation.change?_eq_some_iff.1 hch
    rw [hch, Option.elim_some] at h
    rcases Operation.effect?_cases he with ⟨d, hd, -, rfl⟩ | ⟨-, now, report, -, rfl⟩
    · exact ⟨m, hm, .inl ⟨d, hd, h⟩⟩
    · exact ⟨m, hm, .inr (List.mem_singleton.1 h)⟩

/-- An operation raises alerts about its own device only. -/
theorem canonical?_of_mem_raised {a : Alert} (h : a ∈ op.raised inv) :
    Mac.canonical? a.mac = op.mac? := by
  obtain ⟨m, hm, ⟨d, -, hmem⟩ | rfl⟩ := Operation.raised_cases h
  · rw [hm]
    exact Operation.canonical?_of_mem_edit hm hmem
  · rw [hm]
    exact Mac.canonical?_canonical hm

/-- What operations come to for one device: what it was, what it is, and what was said of it. -/
structure Passes (mac : String) (ops : List Operation) (inv : Inventory) (d d' : Device)
    (as : List Alert) : Prop where
  before : inv.devices.get? mac = some d
  after : (inv.after ops).devices.get? mac = some d'
  raised : (inv.raisedBy ops).filter (isSwing mac) = as

theorem Passes.nil (hd : inv.devices.get? mac = some d) : Passes mac [] inv d d [] :=
  ⟨hd, hd, by rw [raisedBy_nil, List.filter_nil]⟩

theorem Passes.append (h : Passes mac ops inv d d' as)
    (h' : Passes mac ops' (inv.after ops) d' d'' as') :
    Passes mac (ops ++ ops') inv d d'' (as ++ as') where
  before := h.before
  after := by rw [after_append, h'.after]
  raised := by rw [raisedBy_append, List.filter_append, h.raised, h'.raised]

theorem Passes.of_apply (hd : inv.devices.get? mac = some d)
    (hd' : (op.apply inv).devices.get? mac = some d')
    (has : (op.raised inv).filter (isSwing mac) = as) : Passes mac [op] inv d d' as :=
  ⟨hd, hd', has⟩

/-- An operation on another device. -/
theorem passes_other (hcanonical : Mac.canonical? mac = some mac) (hmac : op.mac? ≠ some mac)
    (hd : inv.devices.get? mac = some d) : Passes mac [op] inv d d [] := by
  refine .of_apply hd ((get?_apply_of_mac?_ne hmac).trans hd) (List.filter_eq_nil_iff.2 ?_)
  intro a ha hswing
  have hsame : a.mac = mac := by
    cases a <;> simp_all [isSwing, Alert.mac]
  rw [← canonical?_of_mem_raised ha, hsame] at hmac
  exact hmac hcanonical

/-- An operation on the device itself. -/
theorem passes_edit (hmac : op.mac? = some mac) (hpermitted : op.permitted d = true)
    (hd : inv.devices.get? mac = some d) :
    Passes mac [op] inv d (op.edit mac d).device
      ((op.edit mac d).alerts.filter (isSwing mac)) := by
  have hch : op.change? inv = some (mac, op.edit mac d) := by
    rw [Operation.change?_eq_some_iff, hd, Operation.effect?_some_eq_some_iff]
    exact ⟨hmac, hpermitted, rfl⟩
  refine .of_apply hd ?_ (by rw [raised_eq, hch]; rfl)
  rw [apply_of_change? hch]
  exact (Table.get?_insert ..).trans (if_pos rfl)

/-- An aside changes nothing that a check is about. -/
theorem passes_aside (hcanonical : Mac.canonical? mac = some mac) (haside : op.IsAside inv)
    (hd : inv.devices.get? mac = some d) : ∃ d', Passes mac [op] inv d d' [] ∧
      d'.missed = d.missed ∧ d'.lastSeen = d.lastSeen := by
  by_cases hmac : op.mac? = some mac
  · by_cases hpermitted : op.permitted d = true
    · have hpasses := passes_edit hmac hpermitted hd
      cases op with
      | insert now report =>
        have haccepts : accepts d report = true := hpermitted
        rw [Operation.IsAside, fst_insert hmac, hd, Option.all_some, haccepts] at haside
        cases haside
      | see => exact haside.elim
      | miss => exact haside.elim
      | setLock => exact ⟨_, hpasses, rfl, rfl⟩
      | tryAcquire => exact ⟨_, hpasses, rfl, rfl⟩
    · have hch : op.change? inv = none := by
        rw [Operation.change?, hmac, Option.bind_some, hd, Operation.effect?, if_neg hpermitted]
        rfl
      refine ⟨d, .of_apply hd ?_ ?_, rfl, rfl⟩
      · rw [apply_of_change?_eq_none hch, hd]
      · rw [raised_eq, hch]; rfl
  · exact ⟨d, passes_other hcanonical hmac hd, rfl, rfl⟩

theorem filter_sightingAlerts (mac ip : String) (d : Device) :
    (sightingAlerts mac ip d).filter (isSwing mac) =
      if 2 ≤ d.missed then [.online mac] else [] := by
  rw [sightingAlerts, List.filter_append, offlineMisses]
  split <;> split <;> simp [isSwing]

/-- One mark: an answer of the device resets its counter. -/
theorem passes_mark (hcanonical : Mac.canonical? mac = some mac)
    (hmark : op.IsAside inv ∨ ∃ s, op = .see stamp s) (hd : inv.devices.get? mac = some d) :
    ∃ d', Passes mac [op] inv d d'
        (if op.sees mac = true ∧ 2 ≤ d.missed then [.online mac] else []) ∧
      d'.missed = (if op.sees mac then 0 else d.missed) ∧
      d'.lastSeen = if op.sees mac then some stamp else d.lastSeen := by
  rcases hmark with haside | ⟨s, rfl⟩
  · have hsees : op.sees mac = false := by
      cases op with
      | see => exact haside.elim
      | _ => rfl
    simpa [hsees] using passes_aside hcanonical haside hd
  · by_cases hmac : Mac.canonical? s.mac = some mac
    · have hpasses : Passes mac [.see stamp s] inv d (seen stamp s.ip d)
          ((sightingAlerts mac s.ip d).filter (isSwing mac)) := passes_edit hmac rfl hd
      rw [filter_sightingAlerts] at hpasses
      simp only [Operation.sees, hmac, decide_true, true_and, if_true]
      exact ⟨_, hpasses, rfl, rfl⟩
    · simp only [Operation.sees, hmac, decide_false, Bool.false_eq_true, false_and, if_false]
      exact ⟨d, passes_other hcanonical hmac hd, rfl, rfl⟩

/-- One count: a miss of the device adds to its counter. -/
theorem passes_count (hcanonical : Mac.canonical? mac = some mac)
    (hcount : op.IsAside inv ∨ ∃ m, op = .miss m)
    (hmissed : ∀ m, op.missed? = some m → Mac.canonical? m = some m)
    (hd : inv.devices.get? mac = some d) :
    ∃ d', Passes mac [op] inv d d'
        (if op.missed? = some mac ∧ oneMore d.missed = 2 then [.offline mac] else []) ∧
      d'.missed = (if op.missed? = some mac then oneMore d.missed else d.missed) ∧
      d'.lastSeen = d.lastSeen := by
  rcases hcount with haside | ⟨m, rfl⟩
  · have hmissed? : op.missed? = none := by
      cases op with
      | miss => exact haside.elim
      | _ => rfl
    simpa [hmissed?] using passes_aside hcanonical haside hd
  · by_cases hm : m = mac
    · subst hm
      have hpasses : Passes m [.miss m] inv d _ _ := passes_edit hcanonical rfl hd
      have halerts : ((Operation.miss m).edit m d).alerts.filter (isSwing m) =
          if oneMore d.missed = 2 then [.offline m] else [] := by
        change List.filter _ (if oneMore d.missed = 2 then _ else _) = _
        split <;> simp [isSwing]
      rw [halerts] at hpasses
      simp only [Operation.missed?, true_and, if_true]
      exact ⟨_, hpasses, rfl, rfl⟩
    · have hother : (Operation.miss m).mac? ≠ some mac := by
        rw [Operation.mac?, Operation.target, hmissed m rfl]
        exact fun h ↦ hm (Option.some.inj h)
      simp only [Operation.missed?, Option.some.injEq, hm, false_and, if_false]
      exact ⟨d, passes_other hcanonical hother hd, rfl, rfl⟩

/-! ### The two halves of a check -/

theorem answered_cons (mac : String) (op : Operation) (ops : List Operation) :
    answered mac (op :: ops) = (op.sees mac || answered mac ops) :=
  List.any_cons

theorem answered_append (mac : String) (ops ops' : List Operation) :
    answered mac (ops ++ ops') = (answered mac ops || answered mac ops') :=
  List.any_append

/-- The first half: if some answer is the device's, its counter is reset once and for all. -/
theorem passes_marks (hcanonical : Mac.canonical? mac = some mac)
    (hmarks : Throughout (fun inv op ↦ op.IsAside inv ∨ ∃ s, op = .see stamp s) ops inv)
    (hd : inv.devices.get? mac = some d) :
    ∃ d', Passes mac ops inv d d'
        (if answered mac ops = true ∧ 2 ≤ d.missed then [.online mac] else []) ∧
      d'.missed = (if answered mac ops then 0 else d.missed) ∧
      d'.lastSeen = if answered mac ops then some stamp else d.lastSeen := by
  induction ops generalizing inv d with
  | nil => exact ⟨d, .nil hd, rfl, rfl⟩
  | cons op ops ih =>
    obtain ⟨d₁, hpasses₁, hmissed₁, hseen₁⟩ := passes_mark hcanonical hmarks.1 hd
    obtain ⟨d₂, hpasses₂, hmissed₂, hseen₂⟩ := ih hmarks.2 hpasses₁.after
    have hpasses := hpasses₁.append hpasses₂
    -- After the first answer the counter is zero, so no later one calls the device online again.
    have hreset : ¬(2 : UInt32) ≤ 0 := by decide
    rw [answered_cons]
    refine ⟨d₂, ?_, ?_, ?_⟩
    · cases h : op.sees mac <;> simp_all
    · cases h : op.sees mac <;> simp_all
    · cases h : op.sees mac <;> simp_all

/-- The second half: a device is counted at most once. -/
theorem passes_counts (hcanonical : Mac.canonical? mac = some mac)
    (hcounts : Throughout (fun inv op ↦ op.IsAside inv ∨ ∃ m, op = .miss m) ops inv)
    (hmissed : ∀ m ∈ ops.filterMap Operation.missed?, Mac.canonical? m = some m)
    (hnodup : (ops.filterMap Operation.missed?).Nodup) (hd : inv.devices.get? mac = some d) :
    ∃ d', Passes mac ops inv d d'
        (if mac ∈ ops.filterMap Operation.missed? ∧ oneMore d.missed = 2 then [.offline mac]
          else []) ∧
      d'.missed = (if mac ∈ ops.filterMap Operation.missed? then oneMore d.missed else d.missed) ∧
      d'.lastSeen = d.lastSeen := by
  induction ops generalizing inv d with
  | nil => exact ⟨d, .nil hd, rfl, rfl⟩
  | cons op ops ih =>
    cases hop : op.missed? with
    | none =>
      rw [List.filterMap_cons_none hop] at hmissed hnodup ⊢
      have hnone : ∀ m, op.missed? = some m → Mac.canonical? m = some m := by simp [hop]
      obtain ⟨d₁, hpasses₁, hmissed₁, hseen₁⟩ := passes_count hcanonical hcounts.1 hnone hd
      obtain ⟨d₂, hpasses₂, hmissed₂, hseen₂⟩ := ih hcounts.2 hmissed hnodup hpasses₁.after
      have hpasses := hpasses₁.append hpasses₂
      exact ⟨d₂, by simp_all, by simp_all, hseen₂.trans hseen₁⟩
    | some m =>
      rw [List.filterMap_cons_some hop] at hmissed hnodup ⊢
      rw [List.forall_mem_cons] at hmissed
      obtain ⟨hm, hnodup⟩ := List.nodup_cons.1 hnodup
      have hsome : ∀ m', op.missed? = some m' → Mac.canonical? m' = some m' := by
        rintro m' hm'
        obtain rfl := Option.some.inj (hop.symm.trans hm')
        exact hmissed.1
      obtain ⟨d₁, hpasses₁, hmissed₁, hseen₁⟩ := passes_count hcanonical hcounts.1 hsome hd
      obtain ⟨d₂, hpasses₂, hmissed₂, hseen₂⟩ := ih hcounts.2 hmissed.2 hnodup hpasses₁.after
      have hpasses := hpasses₁.append hpasses₂
      refine ⟨d₂, ?_, ?_, hseen₂.trans hseen₁⟩
      · by_cases h : mac = m
        · subst h; simp_all
        · simp_all [Ne.symm h]
      · by_cases h : mac = m
        · subst h; simp_all
        · simp_all [Ne.symm h]

/-! ### Turns -/

theorem mem_unmarked_iff (h : inv.Canonical) (hd : inv.devices.get? mac = some d) :
    mac ∈ inv.unmarked stamp ↔ d.lastSeen ≠ some stamp := by
  simp only [unmarked, List.mem_map, List.mem_filter, Table.mem_values_iff, bne_iff_ne]
  constructor
  · rintro ⟨d', ⟨⟨m, hd'⟩, hne⟩, hmac⟩
    obtain rfl : m = mac := (h m d' hd').1.symm.trans hmac
    rw [hd] at hd'
    exact Option.some.inj hd' ▸ hne
  · intro hne
    exact ⟨d, ⟨⟨mac, hd⟩, hne⟩, (h mac d hd).1⟩

theorem canonical?_of_mem_unmarked (h : inv.Canonical) (hmac : mac ∈ inv.unmarked stamp) :
    Mac.canonical? mac = some mac := by
  simp only [unmarked, List.mem_map, List.mem_filter, Table.mem_values_iff] at hmac
  obtain ⟨d, ⟨⟨m, hd⟩, -⟩, rfl⟩ := hmac
  obtain ⟨hsame, hcanonical⟩ := h m d hd
  rwa [hsame]

theorem nodup_unmarked (h : inv.Canonical) : (inv.unmarked stamp).Nodup := by
  have hkeys : inv.devices.values.map (·.mac) = inv.devices.keys := by
    rw [Table.values, Table.keys, List.map_map]
    refine List.map_congr_left fun e he ↦ ?_
    exact (h e.1 e.2 ((Table.mem_entries_iff ..).1 he)).1
  have hsublist := List.Sublist.map (·.mac) (List.filter_sublist (l := inv.devices.values)
    (p := (·.lastSeen != some stamp)))
  rw [hkeys] at hsublist
  exact (Table.nodup_keys _).sublist hsublist

theorem Operation.missed?_eq_some_iff : op.missed? = some mac ↔ op = .miss mac := by
  cases op <;> simp [Operation.missed?]

theorem forall_mem_of_throughout {P : Inventory → Operation → Prop} {Q : Operation → Prop}
    (h : Throughout P ops inv) (hPQ : ∀ inv op, P inv op → Q op) : ∀ op ∈ ops, Q op := by
  induction ops generalizing inv with
  | nil => simp
  | cons op ops ih => exact List.forall_mem_cons.2 ⟨hPQ _ _ h.1, ih h.2⟩

theorem throughout_of_forall_mem {P : Inventory → Operation → Prop}
    (h : ∀ op ∈ ops, ∀ inv, P inv op) (inv : Inventory) : Throughout P ops inv := by
  induction ops generalizing inv with
  | nil => exact trivial
  | cons op ops ih =>
    rw [List.forall_mem_cons] at h
    exact ⟨h.1 inv, ih h.2 _⟩

/-- What the operations of a turn come to for one device. -/
structure Outcome (mac : String) (ops : List Operation) (stamp? : Option Time.Instant)
    (inv : Inventory) (d d' : Device) : Prop where
  passes : Passes mac ops inv d d'
    (if answered mac ops = true ∧ 2 ≤ d.missed then [.online mac]
      else if .miss mac ∈ ops ∧ oneMore d.missed = 2 then [.offline mac] else [])
  missed : d'.missed =
    if answered mac ops then 0 else if .miss mac ∈ ops then oneMore d.missed else d.missed
  disjoint : answered mac ops = true → .miss mac ∉ ops
  lastSeen : d'.lastSeen = d.lastSeen ∨ d'.lastSeen = stamp?

namespace Check.Held

variable {c : Check}

theorem answered_eq (h : c.Held inv) (mac : String) :
    answered mac c.operations = answered mac c.marking := by
  have hcounting : answered mac c.counting = false := by
    rw [answered, List.any_eq_false]
    refine forall_mem_of_throughout h.counting ?_
    rintro inv op (haside | ⟨m, rfl⟩)
    · cases op with
      | see => exact haside.elim
      | _ => exact Bool.false_ne_true
    · exact Bool.false_ne_true
  rw [Check.operations, answered_append, hcounting, Bool.or_false]

theorem miss_mem_iff (h : c.Held inv) (mac : String) :
    .miss mac ∈ c.operations ↔ mac ∈ (inv.after c.marking).unmarked c.stamp := by
  have hmarking : .miss mac ∉ c.marking := by
    intro hmem
    refine forall_mem_of_throughout (Q := (· ≠ .miss mac)) h.marking ?_ _ hmem rfl
    rintro inv op (haside | ⟨s, rfl⟩)
    · rintro rfl
      exact haside
    · simp
  rw [Check.operations, List.mem_append, or_iff_right hmarking, ← h.missed, List.mem_filterMap]
  simp [Operation.missed?_eq_some_iff]

/-- A check either resets the counter of a device or adds to it. -/
theorem outcome (hheld : c.Held inv) (h : inv.Canonical) (hd : inv.devices.get? mac = some d)
    (hfresh : d.lastSeen ≠ some c.stamp) :
    ∃ d', Outcome mac c.operations (some c.stamp) inv d d' := by
  have hcanonical := (h mac d hd).2
  have hafter := h.after c.marking
  obtain ⟨d₁, hpasses₁, hmissed₁, hseen₁⟩ := passes_marks hcanonical hheld.marking hd
  obtain ⟨d₂, hpasses₂, hmissed₂, hseen₂⟩ := passes_counts hcanonical hheld.counting
    (by rw [hheld.missed]; exact fun m hm ↦ canonical?_of_mem_unmarked hafter hm)
    (by rw [hheld.missed]; exact nodup_unmarked hafter) hpasses₁.after
  rw [hheld.missed] at hpasses₂ hmissed₂
  have hsees := hheld.answered_eq mac
  have hunmarked : mac ∈ (inv.after c.marking).unmarked c.stamp ↔ d₁.lastSeen ≠ some c.stamp :=
    mem_unmarked_iff hafter hpasses₁.after
  rw [← hheld.miss_mem_iff mac, hseen₁] at hunmarked
  have hpasses := hpasses₁.append hpasses₂
  rw [← Check.operations] at hpasses
  simp only [← hheld.miss_mem_iff mac, ← hsees] at hpasses hmissed₁ hmissed₂ hseen₁ hunmarked
  refine ⟨d₂, ?_⟩
  -- A device that was seen carries the moment of the check, so it is not counted. One that was not
  -- seen cannot carry it, since the moment is new to it.
  cases hs : answered mac c.operations with
  | true =>
    have hm : .miss mac ∉ c.operations := by simp_all
    exact ⟨by simp_all, by simp_all, fun _ ↦ hm, .inr (by simp_all)⟩
  | false =>
    have hm : .miss mac ∈ c.operations := by simp_all
    exact ⟨by simp_all, by simp_all, by simp_all, .inl (by simp_all)⟩

end Check.Held

/-- The check of some answers is held. -/
theorem Check.held_ofSightings (stamp : Time.Instant) (ss : List Sighting) (inv : Inventory) :
    (Check.ofSightings stamp ss inv).Held inv where
  marking := throughout_of_forall_mem (List.forall_mem_map.2 fun s _ _ ↦ .inr ⟨s, rfl⟩) inv
  counting := throughout_of_forall_mem (List.forall_mem_map.2 fun m _ _ ↦ .inr ⟨m, rfl⟩) _
  missed := by
    rw [Check.ofSightings, List.filterMap_map]
    exact List.filterMap_some

/-- Nothing at all leaves the counter of a device alone. -/
theorem outcome_nil (hd : inv.devices.get? mac = some d) : Outcome mac [] none inv d d :=
  ⟨.nil hd, rfl, (fun h ↦ nomatch h), .inl rfl⟩

/-- An aside leaves the counter of a device alone. -/
theorem outcome_aside (hcanonical : Mac.canonical? mac = some mac) (haside : op.IsAside inv)
    (hd : inv.devices.get? mac = some d) : ∃ d', Outcome mac [op] none inv d d' := by
  obtain ⟨d', hpasses, hmissed, hseen⟩ := passes_aside hcanonical haside hd
  have hsees : answered mac [op] = false := by
    cases op with
    | see => exact haside.elim
    | _ => rfl
  have hmisses : .miss mac ∉ [op] := by
    cases op with
    | miss => exact haside.elim
    | _ => simp
  exact ⟨d', by simpa [hsees, hmisses] using hpasses, by simpa [hsees, hmisses] using hmissed,
    fun _ ↦ hmisses, .inl hseen⟩

namespace Turn

variable {t : Turn}

/-- A turn comes down to its operations. -/
theorem apply_eq (t : Turn) (inv : Inventory) : t.apply inv = inv.after (t.record inv) := by
  cases t with
  | check stamp survey => exact (after_checkRecord stamp survey inv).symm
  | interrupted => rfl
  | aside => rfl

theorem sees_eq (hproper : t.Proper inv) (mac : String) :
    t.sees mac = answered mac (t.record inv) := by
  cases t with
  | check stamp survey =>
    rw [sees, record, checkRecord]
    cases survey.interfaces with
    | error => rfl
    | ok interfaces =>
      cases interfaces with
      | nil => rfl
      | cons interface interfaces =>
        have hheld := Check.held_ofSightings stamp (sightings survey (interface :: interfaces)) inv
        exact List.any_map.symm.trans (hheld.answered_eq mac).symm
  | interrupted c => exact (hproper.answered_eq mac).symm
  | aside op =>
    cases op with
    | see => exact hproper.elim
    | _ => rfl

theorem outcome (hproper : t.Proper inv) (h : inv.Canonical) (hd : inv.devices.get? mac = some d)
    (hfresh : ∀ s, t.stamp? = some s → d.lastSeen ≠ some s) :
    ∃ d', Outcome mac (t.record inv) t.stamp? inv d d' := by
  cases t with
  | check stamp survey =>
    rw [record, checkRecord]
    rw [stamp?] at hfresh ⊢
    cases hinterfaces : survey.interfaces with
    | error => exact ⟨d, outcome_nil hd⟩
    | ok interfaces =>
      cases interfaces with
      | nil => exact ⟨d, outcome_nil hd⟩
      | cons interface interfaces =>
        rw [hinterfaces] at hfresh
        have hheld := Check.held_ofSightings stamp (sightings survey (interface :: interfaces)) inv
        exact hheld.outcome h hd (hfresh stamp rfl)
  | interrupted c => exact hproper.outcome h hd (hfresh c.stamp rfl)
  | aside op => exact outcome_aside (h mac d hd).2 hproper hd

end Turn

/-! ### What is said in a turn -/

/-- Only the second miss in a row makes a device offline. -/
theorem oneMore_eq_two_iff (n : UInt32) : oneMore n = 2 ↔ n = 1 := by
  rw [oneMore]
  split
  next h => subst h; decide
  next => grind

theorem oneMore_lt_two_iff {n : UInt32} (h : n ≠ 1) : oneMore n < 2 ↔ n < 2 := by
  rw [oneMore]
  split
  next => rfl
  next => grind

theorem swings_eq (mac : String) (ops : List Operation) (inv : Inventory) :
    swings mac inv (inv.after ops) = (inv.raisedBy ops).filter (isSwing mac) := rfl

namespace Outcome

variable {stamp? : Option Time.Instant}

theorem length_swings_le (h : Outcome mac ops stamp? inv d d') :
    (swings mac inv (inv.after ops)).length ≤ 1 := by
  rw [swings_eq, h.passes.raised]
  split
  · exact le_rfl
  · split <;> simp

theorem offline_mem_iff (h : Outcome mac ops stamp? inv d d') :
    .offline mac ∈ swings mac inv (inv.after ops) ↔ .miss mac ∈ ops ∧ d'.missed = 2 := by
  rw [swings_eq, h.passes.raised, h.missed]
  cases hsees : answered mac ops with
  | true =>
    have hmisses := h.disjoint hsees
    simp only [hmisses, false_and, if_false, true_and]
    split <;> simp
  | false => by_cases hmisses : .miss mac ∈ ops <;> simp [hmisses]

theorem online_mem_iff (h : Outcome mac ops stamp? inv d d') :
    .online mac ∈ swings mac inv (inv.after ops) ↔ answered mac ops = true ∧ 2 ≤ d.missed := by
  rw [swings_eq, h.passes.raised]
  split
  next hsees => simp [hsees]
  next hsees => split <;> simp [hsees]

/-- What a turn says goes on from what was said before. -/
theorem alternates (h : Outcome mac ops stamp? inv d d')
    (hrest : Alternates mac (d'.missed < 2) as) :
    Alternates mac (d.missed < 2) (swings mac inv (inv.after ops) ++ as) := by
  have hmissed := h.missed
  rw [swings_eq, h.passes.raised]
  cases hsees : answered mac ops with
  | true =>
    rw [hsees, if_pos rfl] at hmissed
    rw [hmissed] at hrest
    by_cases hoffline : 2 ≤ d.missed
    · rw [if_pos ⟨rfl, hoffline⟩, decide_eq_false (UInt32.not_lt.2 hoffline)]
      exact ⟨rfl, hrest⟩
    · rw [if_neg fun hswing ↦ hoffline hswing.2, if_neg fun hswing ↦ h.disjoint hsees hswing.1,
        decide_eq_true (UInt32.not_le.1 hoffline)]
      exact hrest
  | false =>
    rw [hsees, if_neg Bool.false_ne_true] at hmissed
    rw [if_neg fun hswing ↦ Bool.false_ne_true hswing.1]
    by_cases hmisses : .miss mac ∈ ops
    · rw [if_pos hmisses] at hmissed
      rw [hmissed] at hrest
      -- The counter passes the threshold from one to two only: below it stays below, and above it
      -- stays above, also where it cannot grow any more.
      by_cases hsecond : d.missed = 1
      · rw [if_pos ⟨hmisses, (oneMore_eq_two_iff _).2 hsecond⟩]
        rw [hsecond] at hrest ⊢
        exact ⟨rfl, hrest⟩
      · rw [if_neg fun hswing ↦ hsecond ((oneMore_eq_two_iff _).1 hswing.2)]
        rwa [decide_eq_decide.2 (oneMore_lt_two_iff hsecond)] at hrest
    · rw [if_neg hmisses] at hmissed
      rw [if_neg fun hswing ↦ hmisses hswing.1, ← hmissed]
      exact hrest

end Outcome

/-! ### Runs -/

theorem exists_afterTurns_eq (ts : List Turn) (inv : Inventory) :
    ∃ ops, inv.afterTurns ts = inv.after ops := by
  induction ts generalizing inv with
  | nil => exact ⟨[], rfl⟩
  | cons t ts ih =>
    obtain ⟨ops, hops⟩ := ih (t.apply inv)
    exact ⟨t.record inv ++ ops, by rw [afterTurns, hops, after_append, Turn.apply_eq]⟩

/-- What a run says is what its first turn says, and then what the rest says. -/
theorem swings_afterTurns_cons (mac : String) (t : Turn) (ts : List Turn) (inv : Inventory) :
    swings mac inv (inv.afterTurns (t :: ts)) =
      swings mac inv (t.apply inv) ++ swings mac (t.apply inv) ((t.apply inv).afterTurns ts) := by
  obtain ⟨ops, hops⟩ := exists_afterTurns_eq ts (t.apply inv)
  rw [afterTurns, hops, Turn.apply_eq, ← after_append, swings_eq, raisedBy_append,
    List.filter_append, after_append]
  rfl

/-- A run over which a device is watched: every check has its own moment, at which the device was
not seen before. -/
structure Watched (mac : String) (ts : List Turn) (inv : Inventory) (d : Device) : Prop where
  canonical : inv.Canonical
  stored : inv.devices.get? mac = some d
  runs : Runs ts inv
  nodup : (stamps ts).Nodup
  fresh : ∀ s ∈ stamps ts, d.lastSeen ≠ some s

namespace Watched

variable {t : Turn} {ts earlier later : List Turn}

/-- A device is watched on after a turn. -/
theorem step (h : Watched mac (t :: ts) inv d) :
    ∃ d', Outcome mac (t.record inv) t.stamp? inv d d' ∧ Watched mac ts (t.apply inv) d' := by
  obtain ⟨hproper, hruns⟩ := h.runs
  have hstamps : stamps (t :: ts) = t.stamp?.toList ++ stamps ts := by
    rw [stamps, List.filterMap_cons]
    cases t.stamp? <;> rfl
  have hnodup := h.nodup
  have hfresh := h.fresh
  rw [hstamps] at hnodup hfresh
  obtain ⟨-, hrest, hdisjoint⟩ := List.nodup_append.1 hnodup
  obtain ⟨d', houtcome⟩ := Turn.outcome hproper h.canonical h.stored
    fun s hs ↦ hfresh s (List.mem_append_left _ (Option.mem_toList.2 hs))
  refine ⟨d', houtcome, ?_, ?_, hruns, hrest, fun s hs ↦ ?_⟩
  · rw [Turn.apply_eq]
    exact h.canonical.after _
  · rw [Turn.apply_eq]
    exact houtcome.passes.after
  · rcases houtcome.lastSeen with hsame | hstamp
    · rw [hsame]
      exact hfresh s (List.mem_append_right _ hs)
    · rw [hstamp]
      exact fun heq ↦ hdisjoint s (Option.mem_toList.2 heq) s hs rfl

theorem drop (h : Watched mac (earlier ++ later) inv d) :
    ∃ d', Watched mac later (inv.afterTurns earlier) d' := by
  induction earlier generalizing inv d with
  | nil => exact ⟨d, h⟩
  | cons t earlier ih =>
    obtain ⟨d', -, hwatched⟩ := h.step
    exact ih hwatched

theorem alternates (h : Watched mac ts inv d) :
    Alternates mac (d.missed < 2) (swings mac inv (inv.afterTurns ts)) := by
  induction ts generalizing inv d with
  | nil => rw [swings, afterTurns, List.drop_length]; exact trivial
  | cons t ts ih =>
    obtain ⟨d', houtcome, hwatched⟩ := h.step
    have hrest := houtcome.alternates (ih hwatched)
    rw [← Turn.apply_eq] at hrest
    rwa [swings_afterTurns_cons]

end Watched

/-- Over a run of checks with moments of their own, between whose marks and between which locks
change and reports are refused, the alerts that a device is offline and online alternate, beginning
with offline if the device has missed fewer than two checks in a row. The check that counts its
second miss raises the one, the first check after that with an answer of it the other, and no turn
raises both. -/
theorem alerts_alternate {ts : List Turn} (hcanonical : inv.Canonical) (hruns : Runs ts inv)
    (hstamps : (stamps ts).Nodup) (hd : inv.devices.get? mac = some d)
    (hfresh : ∀ s ∈ stamps ts, d.lastSeen ≠ some s) (hmissed : d.missed < 2) :
    Alternates mac true (swings mac inv (inv.afterTurns ts)) ∧
    ∀ earlier t later, ts = earlier ++ t :: later →
      let now := inv.afterTurns earlier
      let next := t.apply now
      ∃ d d', now.devices.get? mac = some d ∧ next.devices.get? mac = some d' ∧
        d'.missed = (if t.sees mac then 0 else if t.misses mac now then oneMore d.missed
          else d.missed) ∧
        (.offline mac ∈ swings mac now next ↔ t.misses mac now = true ∧ d'.missed = 2) ∧
        (.online mac ∈ swings mac now next ↔ t.sees mac = true ∧ 2 ≤ d.missed) ∧
        (swings mac now next).length ≤ 1 := by
  have hwatched : Watched mac ts inv d := ⟨hcanonical, hd, hruns, hstamps, hfresh⟩
  refine ⟨?alternates, ?turn⟩
  case alternates =>
    have halternates := hwatched.alternates
    rwa [decide_eq_true hmissed] at halternates
  case turn =>
    rintro earlier t later rfl
    obtain ⟨d₁, hwatched₁⟩ := hwatched.drop
    obtain ⟨d₂, houtcome, -⟩ := hwatched₁.step
    intro now next
    have hnext : next = now.after (t.record now) := t.apply_eq now
    simp only [Turn.misses, decide_eq_true_eq]
    rw [hnext, Turn.sees_eq hwatched₁.runs.1 mac]
    exact ⟨d₁, d₂, hwatched₁.stored, houtcome.passes.after, houtcome.missed,
      houtcome.offline_mem_iff, houtcome.online_mem_iff, houtcome.length_swings_le⟩

/-- A device that was reported once. -/
def reported : Device where
  mac := "00-60-E9-00-00-01"
  lastSeen := some ⟨0, 0⟩

/-- An inventory with one device. -/
def single : Inventory :=
  ({} : Inventory).after [.insert ⟨0, 0⟩ { mac := "0060e9000001" }]

/-- Nobody answers on one interface, and on the other the question cannot be asked. -/
def silence : Survey where
  interfaces := .ok ["eth0", "eth1"]
  broadcast _ := .error (.rejected "no route")
  probe interface := if interface = "eth0" then .ok [] else .error (.rejected "no route")

/-- The device misses two checks and is locked between them. It answers the next check twice, and
between its answers somebody unknown answers and somebody tries its lock. -/
def lapse : List Turn :=
  [.check ⟨1, 0⟩ silence, .aside (.setLock true "0060e9000001"), .check ⟨2, 0⟩ silence,
    .check ⟨2, 0⟩ .empty, .aside (.insert ⟨2, 0⟩ { mac := "0060e9000001" }),
    .interrupted
      { stamp := ⟨3, 0⟩
        marking :=
          [.see ⟨3, 0⟩ ⟨"00:60:e9:00:00:01", ""⟩, .tryAcquire "0060e9000001",
            .see ⟨3, 0⟩ ⟨"nobody", ""⟩, .see ⟨3, 0⟩ ⟨"0060e9000001", ""⟩]
        counting := [] }]

/-- It is called offline once and online once. -/
theorem alerts_alternate_of_lapse :
    Alternates reported.mac true (swings reported.mac single (single.afterTurns lapse)) ∧
      swings reported.mac single (single.afterTurns lapse) =
        [.offline reported.mac, .online reported.mac] := by
  have hruns : Runs lapse single := by
    refine ⟨trivial, trivial, trivial, trivial, ?refused, ⟨?marking, trivial, ?missed⟩, trivial⟩
    case refused =>
      change (insert _ _ _).1 = false
      decide +kernel
    case marking =>
      exact ⟨.inr ⟨_, rfl⟩, .inl trivial, .inr ⟨_, rfl⟩, .inr ⟨_, rfl⟩, trivial⟩
    case missed => decide +kernel
  have hstored : single.devices.get? reported.mac = some reported := by decide +kernel
  obtain ⟨halternates, -⟩ := alerts_alternate ((Canonical.of_empty rfl).after _) hruns
    (by decide +kernel) hstored (by decide +kernel) (by decide)
  exact ⟨halternates, by decide +kernel⟩

end Switchyard.Inventory

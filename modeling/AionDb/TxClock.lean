import AionDb.LibRun
import AionDb.TxDistributed

/-!
# Hybrid logical clocks

A clock issues timestamps of a wall reading and a counter. Both `now` and `update`
go above what the clock has issued before, and `update` above the timestamp of the
peer, unless the counter is full: it saturates, and the timestamp is issued again.
-/

namespace AionDb

namespace HlcTimestamp

variable {a b c : HlcTimestamp}

theorem lt_iff : a.lt b ↔
    a.wallTimeUs < b.wallTimeUs ∨ a.wallTimeUs = b.wallTimeUs ∧ a.logical < b.logical := by
  simp [lt]

/-- The counter saturates. -/
def next (t : HlcTimestamp) : HlcTimestamp := { t with logical := min (t.logical + 1) u32Max }

/-- At most, and below where the counter of the later timestamp is not full. -/
structure Precedes (a b : HlcTimestamp) : Prop where
  le : b.lt a = false
  lt : b.logical < u32Max → a.lt b

theorem precedes_iff : a.Precedes b ↔ a.wallTimeUs < b.wallTimeUs ∨
    a.wallTimeUs = b.wallTimeUs ∧ (a.logical < b.logical ∨ a.logical = b.logical ∧ u32Max ≤ b.logical) := by
  refine ⟨fun ⟨hle, hlt⟩ => ?_, fun h => ⟨?_, fun hfull => ?_⟩⟩
  · rw [← Bool.not_eq_true, lt_iff] at hle
    rw [lt_iff] at hlt
    omega
  · rw [← Bool.not_eq_true, lt_iff]
    omega
  · rw [lt_iff]
    omega

theorem Precedes.trans (hab : a.Precedes b) (hbc : b.Precedes c) : a.Precedes c := by
  rw [precedes_iff] at *
  omega

end HlcTimestamp

inductive HlcError where
  | offsetTooLarge (peerWallTimeUs localWallTimeUs maxOffsetUs : Nat)

structure HybridLogicalClock where
  state : HlcTimestamp := .zero
  maxOffsetUs : Nat := 500000

namespace HybridLogicalClock

variable (c : HybridLogicalClock) (wall : Nat)

def now : HlcTimestamp × HybridLogicalClock :=
  let next := if c.state.wallTimeUs < wall then ⟨wall, 0⟩ else c.state.next
  (next, { c with state := next })

def update (peer : HlcTimestamp) : Except HlcError HlcTimestamp × HybridLogicalClock :=
  if min (wall + c.maxOffsetUs) u64Max < peer.wallTimeUs then
    (.error (.offsetTooLarge peer.wallTimeUs wall c.maxOffsetUs), c)
  else
    let prev := c.state
    let maxWall := max (max wall prev.wallTimeUs) peer.wallTimeUs
    let next : HlcTimestamp :=
      if maxWall = prev.wallTimeUs ∧ maxWall = peer.wallTimeUs then
        ⟨maxWall, min (max prev.logical peer.logical + 1) u32Max⟩
      else if maxWall = prev.wallTimeUs then ⟨maxWall, min (prev.logical + 1) u32Max⟩
      else if maxWall = peer.wallTimeUs then ⟨maxWall, min (peer.logical + 1) u32Max⟩
      else ⟨maxWall, 0⟩
    (.ok next, { c with state := next })

variable {c wall}

theorem now_spec (hc : c.state.logical ≤ u32Max) :
    c.state.Precedes (c.now wall).1 ∧ (c.now wall).1.logical ≤ u32Max := by
  rw [HlcTimestamp.precedes_iff]
  simp only [now, HlcTimestamp.next]
  split
  · exact ⟨.inl ‹_›, Nat.zero_le _⟩
  · refine ⟨.inr ⟨rfl, ?_⟩, Nat.min_le_right ..⟩
    show _ < min _ _ ∨ _ = min _ _ ∧ _ ≤ min _ _
    omega

theorem update_spec {peer ts : HlcTimestamp} {c' : HybridLogicalClock}
    (h : c.update wall peer = (.ok ts, c')) (hc : c.state.logical ≤ u32Max)
    (hpeer : peer.logical ≤ u32Max) :
    c.state.Precedes ts ∧ peer.Precedes ts ∧ ts.logical ≤ u32Max ∧ c' = { c with state := ts } := by
  unfold update at h
  split at h
  · cases h
  · cases h
    refine ⟨?_, ?_, ?_, rfl⟩
    · rw [HlcTimestamp.precedes_iff]
      split_ifs <;> simp only <;> omega
    · rw [HlcTimestamp.precedes_iff]
      split_ifs <;> simp only <;> omega
    · split_ifs <;> simp only <;> omega

theorem update_error {peer : HlcTimestamp} {error : HlcError} {c' : HybridLogicalClock}
    (h : c.update wall peer = (.error error, c')) : c' = c := by
  unfold update at h
  split at h
  · cases h
    rfl
  · cases h

end HybridLogicalClock

/-! ## Clocks that exchange messages -/

/-- A timestamp that was issued, and the event whose message it answers. -/
structure ClockEvent where
  node : Nat
  ts : HlcTimestamp
  source : Option Nat := none
deriving DecidableEq

structure ClockSystem where
  clocks : Nat → HybridLogicalClock := fun _ => {}
  events : List ClockEvent := []

inductive ClockAction where
  | now (node wall : Nat)
  | receive (node wall source : Nat)
  /-- A message from a clock that is not one of these. -/
  | receiveOutside (node wall : Nat) (peer : { ts : HlcTimestamp // ts.logical ≤ u32Max })

namespace ClockSystem

open List

def issue (s : ClockSystem) (node : Nat) (clock : HybridLogicalClock) (source : Option Nat)
    (ts : HlcTimestamp) : ClockSystem where
  clocks := Function.update s.clocks node clock
  events := s.events ++ [⟨node, ts, source⟩]

/-- An update that is rejected issues no timestamp. -/
def update (s : ClockSystem) (node wall : Nat) (source : Option Nat) (peer : HlcTimestamp) :
    ClockSystem :=
  match (s.clocks node).update wall peer with
  | (.ok ts, clock) => s.issue node clock source ts
  | (.error _, clock) => { s with clocks := Function.update s.clocks node clock }

def step (s : ClockSystem) : ClockAction → Option ClockSystem
  | .now node wall =>
    let (ts, clock) := (s.clocks node).now wall
    some (s.issue node clock none ts)
  | .receive node wall source =>
    s.events[source]?.map fun e => s.update node wall (some source) e.ts
  | .receiveOutside node wall peer => some (s.update node wall none peer)

/-- Event `i` is an earlier one of the same clock, or sent the message that `j` received. -/
def Direct (s : ClockSystem) (i j : Nat) : Prop :=
  ∃ e f, s.events[i]? = some e ∧ s.events[j]? = some f ∧ i < j ∧
    (e.node = f.node ∨ f.source = some i)

structure Inv (s : ClockSystem) : Prop where
  clocks : ∀ node, (s.clocks node).state.logical ≤ u32Max
  logical : ∀ e ∈ s.events, e.ts.logical ≤ u32Max
  issued : ∀ e ∈ s.events, e.ts = (s.clocks e.node).state ∨ e.ts.Precedes (s.clocks e.node).state
  direct : ∀ (i j : Nat) (e f : ClockEvent), s.events[i]? = some e → s.events[j]? = some f → i < j →
    e.node = f.node ∨ f.source = some i → e.ts.Precedes f.ts

variable {s s' : ClockSystem} {node : Nat} {clock : HybridLogicalClock} {source : Option Nat}
  {ts : HlcTimestamp} {a : ClockAction}

theorem Inv.issue (h : s.Inv) (hclock : clock.state = ts) (hts : (s.clocks node).state.Precedes ts)
    (hle : ts.logical ≤ u32Max)
    (hsource : ∀ (i : Nat) (e : ClockEvent), source = some i → s.events[i]? = some e → e.ts.Precedes ts) :
    (s.issue node clock source ts).Inv := by
  have hbefore (e : ClockEvent) (he : e ∈ s.events) (hnode : e.node = node) : e.ts.Precedes ts := by
    rcases h.issued e he with heq | hprec
    · rw [heq, hnode]
      exact hts
    · rw [hnode] at hprec
      exact hprec.trans hts
  refine ⟨fun n => ?_, fun e he => ?_, fun e he => ?_, fun i j e f hi hj hij hcause => ?_⟩
  · simp only [ClockSystem.issue, Function.update_apply]
    split
    · exact hclock ▸ hle
    · exact h.clocks n
  · rcases mem_append.mp he with he | he
    · exact h.logical e he
    · cases mem_singleton.mp he
      exact hle
  · simp only [ClockSystem.issue, Function.update_apply]
    rcases mem_append.mp he with he | he
    · split
      · exact .inr (hclock ▸ hbefore e he ‹_›)
      · exact h.issued e he
    · cases mem_singleton.mp he
      exact .inl (by rw [if_pos rfl, hclock])
  · -- only the new event can be the later one of a new pair
    have hlen := (List.getElem?_eq_some_iff.mp hj).1
    simp only [ClockSystem.issue, length_append, length_singleton] at hi hj hlen
    rw [getElem?_append_left (by omega)] at hi
    rcases Nat.lt_or_ge j s.events.length with hlt | hge
    · rw [getElem?_append_left hlt] at hj
      exact h.direct i j e f hi hj hij hcause
    · obtain rfl : j = s.events.length := by omega
      rw [getElem?_concat_length] at hj
      cases hj
      rcases hcause with hnode | hsrc
      · exact hbefore e (mem_of_getElem? hi) hnode
      · exact hsource i e hsrc hi

theorem Inv.update (h : s.Inv) {wall : Nat} {peer : HlcTimestamp} (hpeer : peer.logical ≤ u32Max)
    (hsource : ∀ (i : Nat) (e : ClockEvent), source = some i → s.events[i]? = some e → e.ts = peer) :
    (s.update node wall source peer).Inv := by
  unfold ClockSystem.update
  split
  · rename_i ts clock hupdate
    obtain ⟨hts, hpeer, hle, rfl⟩ := HybridLogicalClock.update_spec hupdate (h.clocks node) hpeer
    exact h.issue rfl hts hle fun i e hi he => hsource i e hi he ▸ hpeer
  · rename_i hupdate
    obtain rfl := HybridLogicalClock.update_error hupdate
    rwa [Function.update_eq_self]

theorem step_inv (h : s.Inv) (hstep : s.step a = some s') : s'.Inv := by
  cases a with
  | now node wall =>
    cases hstep
    have hnow := @HybridLogicalClock.now_spec (s.clocks node) wall (h.clocks node)
    exact h.issue rfl hnow.1 hnow.2 nofun
  | receive node wall source =>
    obtain ⟨e, he, rfl⟩ := Option.map_eq_some_iff.mp hstep
    refine h.update (h.logical e (mem_of_getElem? he)) fun i e' hi he' => ?_
    cases hi
    cases he.symm.trans he'
    rfl
  | receiveOutside node wall peer =>
    cases hstep
    exact h.update peer.2 nofun

end ClockSystem

end AionDb

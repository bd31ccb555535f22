import IntelliStore.Replication.Calls
import IntelliStore.Replication.ServiceRules

/-! Which nodes a staleness sweep marks while heartbeats arrive. -/

namespace IntelliStore.Replication
open Library Postgres

/-- The node was silent for longer than `staleMs` when it was marked. -/
def Marking.Justified (staleMs : Nat) (m : Marking) : Prop :=
  ∀ lastBeat, m.lastHeartbeatAt = some lastBeat → lastBeat + staleMs < m.time

/-- Each node that is marked has the heartbeat that the sweep has read of it. -/
def Statement.Unchanged (w : Circumstances) (x : Shared × Notes) : Statement → Prop
  | .markStale id => w.outcome ≠ .failed → ∀ node ∈ x.1.cluster.nodes, node.id = id →
      ∀ read ∈ x.2.nodes, read.id = id → node.lastHeartbeatAt = read.lastHeartbeatAt
  | _ => True

/-! ### One call -/

def sweeping (staleMs : Nat) :
    Contract Statement Statement.Reply Failure Circumstances (Shared × Notes) where
  exec := Statement.perform
  allowed c w x := x.1.clock ≤ w.now ∧ c.Unchanged w x
  rely x y := y.2 = x.2 ∧ x.1.clock ≤ y.1.clock
  guar x y := x.1.clock ≤ y.1.clock ∧ ((∀ m ∈ x.1.markings, m.Justified staleMs) →
    ∀ m ∈ y.1.markings, m.Justified staleMs)

theorem sweeping_lawful (staleMs : Nat) : (sweeping staleMs).Lawful where
  refl := fun _ => ⟨rfl, le_rfl⟩
  trans := fun _ _ _ h h' => ⟨h'.1.trans h.1, h.2.trans h'.2⟩

/-- The statement marks no node. -/
def Statement.spares : Statement → Bool
  | .markStale _ => false
  | _ => true

section
variable {staleMs : Nat} {x : Shared × Notes}

theorem Statement.perform_sweeping (c : Statement) {w : Circumstances}
    (hclock : x.1.clock ≤ w.now)
    (hmarks : ∀ m ∈ c.marks w x.1.cluster, m.Justified staleMs) :
    (sweeping staleMs).guar x (c.perform w x).2 := by
  refine ⟨hclock, fun hold m hm => ?_⟩
  have hmem : m ∈ x.1.markings ++ c.marks w x.1.cluster := hm
  rcases List.mem_append.mp hmem with hm | hm
  · exact hold m hm
  · exact hmarks m hm

theorem Statement.perform_spares {c : Statement} (hc : c.spares = true) {w : Circumstances}
    (hclock : x.1.clock ≤ w.now) : (sweeping staleMs).guar x (c.perform w x).2 := by
  apply c.perform_sweeping hclock
  intro m hm
  cases c with
  | markStale id => cases hc
  | _ => cases hm

/-- What the sweep has read: nodes and, before them, the time. -/
structure Read (now : Nat) (nodes : List StorageNodeRecord) (x : Shared × Notes) : Prop where
  clock : now ≤ x.1.clock
  nodes : nodes ⊆ x.2.nodes

theorem Read.step {now : Nat} {nodes : List StorageNodeRecord} {y : Shared × Notes}
    (h : Read now nodes x) (hclock : x.1.clock ≤ y.1.clock) (hnotes : y.2 = x.2) :
    Read now nodes y := ⟨h.clock.trans hclock, hnotes ▸ h.nodes⟩

/-- The decision of the sweep stands while the recorded heartbeat does. -/
theorem marks_justified {now : Nat} {node : StorageNodeRecord} {w : Circumstances}
    (hclock : x.1.clock ≤ w.now) (hunchanged : Statement.Unchanged w x (.markStale node.id))
    (hnow : now ≤ x.1.clock) (hread : node ∈ x.2.nodes)
    (hstale : HeartbeatMonitor.isStale staleMs now node = true) :
    ∀ m ∈ Statement.marks w x.1.cluster (.markStale node.id), m.Justified staleMs := by
  intro m hm
  simp only [Statement.marks] at hm
  split_ifs at hm with hfailed
  · cases hm
  obtain ⟨current, hcurrent, rfl⟩ := List.mem_map.mp hm
  rw [List.mem_filter, decide_eq_true_iff] at hcurrent
  have hsame := hunchanged hfailed current hcurrent.1 hcurrent.2 node hread rfl
  intro lastBeat hbeat
  have hbeat' : node.lastHeartbeatAt = some lastBeat := hsame.symm.trans hbeat
  rw [HeartbeatMonitor.isStale, hbeat', decide_eq_true_iff] at hstale
  show lastBeat + staleMs < w.now
  omega

theorem sat_sweepEach {now : Nat} {nodes : List StorageNodeRecord} (h : Read now nodes x) :
    (HeartbeatMonitor.sweepEach staleMs now nodes).sat (sweeping staleMs) (fun _ _ => True) x := by
  induction nodes generalizing x with
  | nil => trivial
  | cons node nodes ih =>
    have htail : ∀ {y}, Read now (node :: nodes) y → Read now nodes y := fun hy =>
      ⟨hy.clock, fun _ hn => hy.nodes (List.mem_cons_of_mem _ hn)⟩
    rw [HeartbeatMonitor.sweepEach]
    split_ifs with hmark
    · apply Prog.sat_command
      intro t ht w hw
      have hread := h.step ht.2 ht.1
      have hstale : HeartbeatMonitor.isStale staleMs now node = true :=
        (Bool.and_eq_true_iff.mp hmark).2
      have hguar := Statement.perform_sweeping (.markStale node.id) hw.1 (marks_justified hw.1
        hw.2 hread.clock (hread.nodes List.mem_cons_self) hstale)
      exact ⟨hguar, fun _ _ => trivial, fun _ _ => ih (htail (hread.step hguar.1 rfl))⟩
    · exact ih (htail h)

theorem sat_tick (staleMs : Nat) (x : Shared × Notes) :
    (HeartbeatMonitor.tick staleMs).sat (sweeping staleMs) (fun _ _ => True) x := by
  apply Prog.sat_command
  intro t _ w hw
  refine ⟨Statement.perform_spares rfl hw.1, fun _ _ => trivial, fun now hnow => ?_⟩
  -- the clock stands at the time that was read, and only advances
  have hclock : now = w.now := (Except.ok.inj hnow).symm
  apply Prog.sat_command
  intro u hu w' hw'
  refine ⟨Statement.perform_spares rfl hw'.1, fun _ _ => trivial, fun nodes hnodes => ?_⟩
  apply sat_sweepEach
  refine ⟨?_, ?_⟩
  · rw [hclock]
    exact le_trans hu.2 hw'.1
  · have hnote : Statement.note .listAll (Statement.exec .listAll w' u.1.cluster).1 u.2 =
        { u.2 with nodes := nodes } := by
      rw [show (Statement.exec .listAll w' u.1.cluster).1 = .ok nodes from hnodes]
      rfl
    show nodes ⊆ (Statement.note .listAll (Statement.exec .listAll w' u.1.cluster).1 u.2).nodes
    rw [hnote]
    exact List.Subset.refl _

theorem sat_postHeartbeat (staleMs : Nat) (name : String) (x : Shared × Notes) :
    (postHeartbeat name).sat (sweeping staleMs) (fun _ _ => True) x :=
  Prog.sat_of_issues (fun _ => True) (fun _ _ _ _ => trivial)
    (fun _ _ _ hc hw _ => ⟨Statement.perform_spares hc hw.1, trivial⟩)
    (onlyIssues_postHeartbeat (K := fun c => c.spares = true) (fun _ => rfl) rfl
      (fun _ _ _ => rfl) name) trivial

end

/-! ### Runs -/

/-- Sweeps and heartbeats, under a clock that never goes back. -/
def Calls.Beating (staleMs : Nat) (calls : Calls) : Calls.Action → Prop
  | .spawn (.operation (.heartbeat _)) => True
  | .spawn (.operation (.stalenessSweep ms)) => ms = staleMs
  | .spawn _ => False
  | .proceed _ w => calls.shared.clock ≤ w.now

/-- A node that a sweep marks has had no heartbeat since the sweep read it. -/
def Calls.Undisputed (calls : Calls) : Calls.Action → Prop
  | .proceed i w =>
    match calls.threads[i]? with
    | some (notes, .call c _) => c.Unchanged w (calls.shared, notes)
    | _ => True
  | _ => True

instance (w : Circumstances) (x : Shared × Notes) (c : Statement) :
    Decidable (c.Unchanged w x) := by
  unfold Statement.Unchanged
  split <;> infer_instance

instance (staleMs : Nat) (calls : Calls) (a : Calls.Action) :
    Decidable (calls.Beating staleMs a) := by
  unfold Calls.Beating
  split <;> infer_instance

instance (calls : Calls) (a : Calls.Action) : Decidable (calls.Undisputed a) := by
  unfold Calls.Undisputed
  split
  · split <;> infer_instance
  · infer_instance

/-- While no heartbeat comes between the reading of a node and its marking, a node is marked
for a real silence only. -/
theorem markings_justified (staleMs : Nat) (options : ReplicationServiceOptions)
    (cluster : Cluster) (calls : Calls) (h : Reach (Calls.step options)
      (fun calls a => calls.Beating staleMs a ∧ calls.Undisputed a) (.init cluster) calls) :
    ∀ m ∈ calls.shared.markings, m.Justified staleMs := by
  have hsound := h.invariant (fun calls : Calls => calls.Sound (sweeping staleMs)
    (fun s => ∀ m ∈ s.markings, m.Justified staleMs) fun _ _ => True)
    (Pool.Sound.init fun m hm => by cases hm) ?_
  · exact hsound.shared
  intro calls a calls' hsound hg hstep
  cases a with
  | spawn call =>
    have hsat : (call.service options).sat (sweeping staleMs) (fun _ _ => True)
        ((call.start options calls.shared).1, (call.start options calls.shared).2.1) := by
      cases call with
      | operation op =>
        cases op with
        | heartbeat name => exact sat_postHeartbeat staleMs name _
        | stalenessSweep ms =>
          obtain rfl : ms = staleMs := hg.1
          exact sat_tick ms _
        | _ => exact hg.1.elim
      | _ => exact hg.1.elim
    exact hsound.spawn (Call.start options) (sweeping_lawful staleMs)
      (fun _ _ _ => trivial) hsound.shared (fun _ => ⟨rfl, le_rfl⟩) hsat
      (fun _ _ _ => trivial) hstep
  | proceed i w =>
    refine hsound.proceed (Call.start options) (sweeping_lawful staleMs)
      (fun _ _ _ => trivial) (fun _ _ _ _ hk hs => hk.2 hs) (fun _ _ _ _ _ hk _ _ => ⟨rfl, hk.1⟩)
      (fun l c next hi => ⟨hg.1, ?_⟩) (fun _ _ _ _ _ _ _ _ _ _ => trivial) hstep
    have hcondition := hg.2
    simp only [Calls.Undisputed, hi] at hcondition
    exact hcondition

/-! A node that is silent until time 20, and whose heartbeat arrives between the reading and the
marking, or not at all. -/

def sweptNode : List Calls.Action :=
  [.spawn (.operation (.stalenessSweep 10)), .spawn (.operation (.heartbeat "node-1")),
    .proceed 0 (.calm 20), .proceed 0 (.calm 20)]

def lateHeartbeat : List Calls.Action := List.replicate 3 (.proceed 1 (.calm 21))

def marking : Calls.Action := .proceed 0 (.calm 22)

theorem fresh_node_marked :
    ∃ calls : Calls, Reach (Calls.step .sample) (fun calls a => calls.Beating 10 a)
        (.init (.installed 1)) calls ∧ ¬∀ m ∈ calls.shared.markings, m.Justified 10 := by
  have hrun : ∃ calls ∈ (sweptNode ++ lateHeartbeat ++ [marking]).foldlM
      (fun (s : Calls) a => if s.Beating 10 a then Calls.step .sample s a else none)
      (Calls.init (.installed 1)), calls.shared.markings = [⟨some 21, 22⟩] := by decide
  obtain ⟨calls, hs, hmarkings⟩ := hrun
  refine ⟨calls, reach_of_schedule hs, fun h => ?_⟩
  rw [hmarkings] at h
  exact absurd (h _ (List.mem_singleton_self _) 21 rfl) (by decide)

theorem markings_justified_swept :
    ∃ calls : Calls, calls.shared.markings = [⟨some 0, 22⟩] ∧
      ∀ m ∈ calls.shared.markings, m.Justified 10 := by
  have hrun : ∃ calls ∈ (sweptNode ++ [marking]).foldlM
      (fun (s : Calls) a => if s.Beating 10 a ∧ s.Undisputed a then Calls.step .sample s a else none)
      (Calls.init (.installed 1)), calls.shared.markings = [⟨some 0, 22⟩] := by decide
  obtain ⟨calls, hs, hmarkings⟩ := hrun
  exact ⟨calls, hmarkings, markings_justified 10 .sample (.installed 1) calls
    (reach_of_schedule hs)⟩

end IntelliStore.Replication

import HvGin.Host
import HvGin.ServiceMain
import HvGin.Lib.Cost

/-!
# The threads of a session that is over

A session ends when one of its threads has died. The other is not joined: it goes on beside
the next session until it comes to its test of `ShouldRunning`. Whatever the schedule, it
has then six steps left, or eight if it is the `Tcp2VmbusThread`, and can always take the
next one (`steps_of_over`); on its way it pops or pushes at most one more packet
(`packets_of_over`). While a session lasts, its `Vmbus2TcpThread` loses at most one of the
packets it has popped (`pops_le_sends`).

## Main definitions

* `ServiceMain.Over` — a session whose threads are not watched any more.
* `Popper.stepsLeft` and the like — how far a thread is from its end, if its next test of
  `ShouldRunning` fails.
* `ServiceMain.pushes`, `pops`, `sends` — what a session does in a step.
-/
namespace HvGin

open Lib

/-! ## How far a thread is from its end -/

/-- The steps of a call. -/
def Popper.stepsLeft : Popper → ℕ
  | .called => 3
  | .read _ _ => 2
  | .copied _ _ _ _ => 1
  | .returned _ => 0
  | .threw => 0

def Pusher.stepsLeft : Pusher → ℕ
  | .called _ => 3
  | .read _ _ _ _ => 2
  | .copied _ _ _ => 1
  | .returned => 0
  | .threw => 0

/-- The steps up to the next test of `ShouldRunning`, and this one. -/
def Vmbus2TcpThread.stepsLeft : Vmbus2TcpThread → ℕ
  | .test => 1
  | .popping p => p.stepsLeft + 3
  | .sending => 2
  | .dead => 0

def Tcp2VmbusThread.stepsLeft : Tcp2VmbusThread → ℕ
  | .test => 1
  | .entered => 8
  | .sized _ => 7
  | .pushing p => p.stepsLeft + 3
  | .signalling => 2
  | .dead => 0

/-- The packets a call may still take. -/
def Popper.popsLeft (p : Popper) : ℕ := min p.stepsLeft 1

def Pusher.pushesLeft (p : Pusher) : ℕ := min p.stepsLeft 1

/-- The packets popped and pushed up to the next test of `ShouldRunning`. -/
def Vmbus2TcpThread.popsLeft : Vmbus2TcpThread → ℕ
  | .popping p => p.popsLeft
  | _ => 0

def Tcp2VmbusThread.pushesLeft : Tcp2VmbusThread → ℕ
  | .entered => 1
  | .sized _ => 1
  | .pushing p => p.pushesLeft
  | _ => 0

/-- The packets pushed by the next step. -/
def Pusher.stores : Pusher → ℕ
  | .copied _ _ _ => 1
  | _ => 0

def Tcp2VmbusThread.stores : Tcp2VmbusThread → ℕ
  | .pushing p => p.stores
  | _ => 0

/-- The packets with a content that are popped by the next step. -/
def Popper.takes : Popper → ℕ
  | .copied content _ _ _ => if content.length = 0 then 0 else 1
  | _ => 0

def Vmbus2TcpThread.takes : Vmbus2TcpThread → ℕ
  | .popping p => p.takes
  | _ => 0

/-- The packets sent by the next step. -/
def Vmbus2TcpThread.sends (closed throws : Bool) : Vmbus2TcpThread → ℕ
  | .sending => if closed || throws then 0 else 1
  | _ => 0

/-- The packets the thread may still lose, beyond one it has in its hands. -/
def Popper.mayLose : Popper → ℕ
  | .returned content => if content.length = 0 then 1 else 0
  | _ => 1

def Vmbus2TcpThread.mayLose : Vmbus2TcpThread → ℕ
  | .test => 1
  | .popping p => p.mayLose
  | .sending => 0
  | .dead => 0

/-- The packets popped on behalf of a session. -/
def Shared.deliveredTo (s : Shared) (k : ℕ) : ℕ := s.delivered.countP fun d => d.1 = k

section

variable {dev : UioHvDevice} {s t : Shared} {session k : ℕ} {shouldRunning closed throws : Bool}

theorem Vmbus2TcpThread.stepsLeft_le (v : Vmbus2TcpThread) : v.stepsLeft ≤ 6 := by
  cases v with
  | popping p => cases p <;> simp [stepsLeft, Popper.stepsLeft]
  | _ => simp [stepsLeft]

theorem Tcp2VmbusThread.stepsLeft_le (v : Tcp2VmbusThread) : v.stepsLeft ≤ 8 := by
  cases v with
  | pushing p => cases p <;> simp [stepsLeft, Pusher.stepsLeft]
  | _ => simp [stepsLeft]

theorem Vmbus2TcpThread.popsLeft_le (v : Vmbus2TcpThread) : v.popsLeft ≤ 1 := by
  cases v with
  | popping p => exact Nat.min_le_right _ _
  | _ => exact Nat.zero_le _

theorem Tcp2VmbusThread.pushesLeft_le (v : Tcp2VmbusThread) : v.pushesLeft ≤ 1 := by
  cases v with
  | pushing p => exact Nat.min_le_right _ _
  | entered => exact le_rfl
  | sized size => exact le_rfl
  | _ => exact Nat.zero_le _

theorem Vmbus2TcpThread.mayLose_le (v : Vmbus2TcpThread) : v.mayLose ≤ 1 := by
  cases v with
  | popping p =>
      cases p with
      | returned content =>
          simp only [mayLose, Popper.mayLose]
          split <;> simp
      | _ => exact le_rfl
  | test => exact le_rfl
  | _ => exact Nat.zero_le _

/-- A call ends after three steps, and takes one packet at most. -/
theorem Popper.step_left {p p' : Popper} (h : p.step dev session s = some (p', t)) :
    p'.stepsLeft < p.stepsLeft ∧
      t.deliveredTo session + p'.popsLeft ≤ s.deliveredTo session + p.popsLeft ∧
      ∀ k ≠ session, t.deliveredTo k = s.deliveredTo k := by
  cases p with
  | called =>
      cases h
      exact ⟨by simp [stepsLeft], le_rfl, fun _ _ => rfl⟩
  | read cb position =>
      rw [Popper.step] at h
      split at h
      · cases h
        exact ⟨by simp [stepsLeft], Nat.le_succ _, fun _ _ => rfl⟩
      · cases h
        exact ⟨by simp [stepsLeft], Nat.le_succ _, fun _ _ => rfl⟩
      · cases h
        exact ⟨by simp [stepsLeft], le_rfl, fun _ _ => rfl⟩
  | copied content finalOffset position size =>
      cases h
      refine ⟨by simp [stepsLeft], ?_, ?_⟩
      · simp [Shared.deliveredTo, popsLeft, stepsLeft]
      · intro k hk
        simp [Shared.deliveredTo, hk.symm]
  | returned content => cases h
  | threw => cases h

theorem Pusher.step_left {p p' : Pusher} (h : p.step dev s = some (p', t)) :
    p'.stepsLeft < p.stepsLeft ∧ t.delivered = s.delivered := by
  cases p with
  | called content =>
      cases hheaders : pushHeaders content.data.length with
      | error e =>
          rw [Pusher.step_called_error hheaders] at h
          cases h
          exact ⟨by simp [stepsLeft], rfl⟩
      | ok headers =>
          rw [Pusher.step_called hheaders] at h
          cases h
          exact ⟨by simp [stepsLeft], rfl⟩
  | read content headers cb position =>
      rw [Pusher.step] at h
      rcases hrun : (pushWork dev content headers cb).run s.mapping with ⟨e | finalOffset, m⟩
      · rw [Act.handle_error hrun] at h
        cases h
        exact ⟨by simp [stepsLeft], rfl⟩
      · rw [Act.handle_ok hrun] at h
        cases h
        exact ⟨by simp [stepsLeft], rfl⟩
  | copied finalOffset position size =>
      cases h
      exact ⟨by simp [stepsLeft], rfl⟩
  | returned => cases h
  | threw => cases h

/-- A move of the thread outside its pop. -/
inductive Vmbus2TcpThread.Move (shouldRunning closed throws : Bool) :
    Vmbus2TcpThread → Vmbus2TcpThread → Prop
  | enter : shouldRunning = true → Move shouldRunning closed throws .test (.popping .called)
  | leave : Move shouldRunning closed throws .test .dead
  | empty {content : List UInt8} : content.length = 0 →
      Move shouldRunning closed throws (.popping (.returned content)) .test
  | content {content : List UInt8} : content.length ≠ 0 →
      Move shouldRunning closed throws (.popping (.returned content)) .sending
  | threw : Move shouldRunning closed throws (.popping .threw) .dead
  | sent : closed = false → throws = false → Move shouldRunning closed throws .sending .test
  | failed : Move shouldRunning closed throws .sending .dead

/-- A step of the thread is a step of its pop, or a move that leaves what is shared alone. -/
theorem Vmbus2TcpThread.step_moves {v v' : Vmbus2TcpThread}
    (h : v.step dev session shouldRunning closed throws s = some (v', t)) :
    (∃ p p', v = .popping p ∧ v' = .popping p' ∧ p.step dev session s = some (p', t)) ∨
      t = s ∧ Move shouldRunning closed throws v v' := by
  have hpop {p : Popper} (hmap : ((p.step dev session s).map fun r =>
      (Vmbus2TcpThread.popping r.1, r.2)) = some (v', t)) :
      ∃ q q', Vmbus2TcpThread.popping p = .popping q ∧ v' = .popping q' ∧
        q.step dev session s = some (q', t) := by
    obtain ⟨⟨p', u⟩, hp, heq⟩ := Option.map_eq_some_iff.mp hmap
    cases heq
    exact ⟨p, p', rfl, rfl, hp⟩
  cases v with
  | test =>
      cases h
      cases shouldRunning
      · exact Or.inr ⟨rfl, .leave⟩
      · exact Or.inr ⟨rfl, .enter rfl⟩
  | popping p =>
      cases p with
      | called => exact Or.inl (hpop h)
      | read cb position => exact Or.inl (hpop h)
      | copied content finalOffset position size => exact Or.inl (hpop h)
      | returned content =>
          cases h
          split
          · exact Or.inr ⟨rfl, .empty ‹_›⟩
          · exact Or.inr ⟨rfl, .content ‹_›⟩
      | threw =>
          cases h
          exact Or.inr ⟨rfl, .threw⟩
  | sending =>
      cases h
      cases closed <;> cases throws
      · exact Or.inr ⟨rfl, .sent rfl rfl⟩
      all_goals exact Or.inr ⟨rfl, .failed⟩
  | dead => cases h

/-- Once `ShouldRunning` is false, each step brings the thread nearer to its end. -/
theorem Vmbus2TcpThread.step_left {v v' : Vmbus2TcpThread}
    (h : v.step dev session false closed throws s = some (v', t)) :
    v'.stepsLeft < v.stepsLeft ∧
      t.deliveredTo session + v'.popsLeft ≤ s.deliveredTo session + v.popsLeft := by
  rcases step_moves h with ⟨p, p', rfl, rfl, hp⟩ | ⟨rfl, hmove⟩
  · obtain ⟨hsteps, hpops, _⟩ := Popper.step_left hp
    exact ⟨Nat.add_lt_add_right hsteps 3, hpops⟩
  · cases hmove with
    | enter hrunning => cases hrunning
    | _ => exact ⟨by simp [stepsLeft], Nat.add_le_add_left (Nat.zero_le _) _⟩

theorem Vmbus2TcpThread.deliveredTo_step {v v' : Vmbus2TcpThread} (hk : k ≠ session)
    (h : v.step dev session shouldRunning closed throws s = some (v', t)) :
    t.deliveredTo k = s.deliveredTo k := by
  rcases step_moves h with ⟨p, p', rfl, rfl, hp⟩ | ⟨rfl, _⟩
  · exact (Popper.step_left hp).2.2 k hk
  · rfl

/-- A thread that is not dead can take a step. -/
theorem Vmbus2TcpThread.step_eq_some {v : Vmbus2TcpThread} (h : v ≠ .dead) :
    ∃ w, v.step dev session shouldRunning closed throws s = some w := by
  cases v with
  | test => exact ⟨_, rfl⟩
  | popping p =>
      cases p with
      | read cb position =>
          rcases hcopy : popCopy dev cb s.mapping with e | _ | ⟨content, finalOffset⟩
          · exact ⟨_, Option.map_eq_some_iff.mpr ⟨_, Popper.step_read_error hcopy, rfl⟩⟩
          · exact ⟨_, Option.map_eq_some_iff.mpr ⟨_, Popper.step_read_none hcopy, rfl⟩⟩
          · exact ⟨_, Option.map_eq_some_iff.mpr ⟨_, Popper.step_read_ok hcopy, rfl⟩⟩
      | _ => exact ⟨_, rfl⟩
  | sending => exact ⟨_, rfl⟩
  | dead => exact absurd rfl h

/-- A move of the thread outside its push. -/
inductive Tcp2VmbusThread.Move (shouldRunning : Bool) : Tcp2VmbusThread → Tcp2VmbusThread → Prop
  | enter : shouldRunning = true → Move shouldRunning .test .entered
  | leave : Move shouldRunning .test .dead
  | size {size : ℕ} : Move shouldRunning .entered (.sized size)
  | nothing : Move shouldRunning .entered .test
  | unavailable : Move shouldRunning .entered .dead
  | content {size : ℕ} {content : Bytes} :
      Move shouldRunning (.sized size) (.pushing (.called content))
  | failed {size : ℕ} : Move shouldRunning (.sized size) .dead
  | pushed : Move shouldRunning (.pushing .returned) .signalling
  | threw : Move shouldRunning (.pushing .threw) .dead
  | signalled : Move shouldRunning .signalling .test

theorem move_maximumSendSize {n : ℕ} :
    Tcp2VmbusThread.Move shouldRunning .entered (maximumSendSize dev s n) := by
  simp only [maximumSendSize]
  rcases hrun : (getMaximumPushSize dev).run s.mapping with ⟨e | maximum, m⟩
  · rw [Act.handle_error hrun]
    exact .unavailable
  · rw [Act.handle_ok hrun]
    split
    · exact .size
    · exact .nothing

/-- A step of the thread is a step of its push, or a move; neither pops anything. -/
theorem Tcp2VmbusThread.step_moves {v v' : Tcp2VmbusThread} {event : ServiceMain.SocketEvent}
    (h : v.step dev shouldRunning closed event s = some (v', t)) :
    ((∃ p p', v = .pushing p ∧ v' = .pushing p' ∧ p'.stepsLeft < p.stepsLeft) ∨
      Move shouldRunning v v') ∧ t.delivered = s.delivered := by
  have hpush {p : Pusher} (hmap : ((p.step dev s).map fun r =>
      (Tcp2VmbusThread.pushing r.1, r.2)) = some (v', t)) :
      ((∃ q q', Tcp2VmbusThread.pushing p = .pushing q ∧ v' = .pushing q' ∧
        q'.stepsLeft < q.stepsLeft) ∨ Move shouldRunning (.pushing p) v') ∧
        t.delivered = s.delivered := by
    obtain ⟨⟨p', u⟩, hp, heq⟩ := Option.map_eq_some_iff.mp hmap
    cases heq
    obtain ⟨hsteps, hdelivered⟩ := Pusher.step_left hp
    exact ⟨Or.inl ⟨p, p', rfl, rfl, hsteps⟩, hdelivered⟩
  cases v with
  | test =>
      cases h
      cases shouldRunning
      · exact ⟨Or.inr .leave, rfl⟩
      · exact ⟨Or.inr (.enter rfl), rfl⟩
  | entered =>
      cases event with
      | available n =>
          rw [Tcp2VmbusThread.step] at h
          split at h
          · cases h
          · cases h
            exact ⟨Or.inr move_maximumSendSize, rfl⟩
      | received content => cases h
      | throws =>
          cases h
          exact ⟨Or.inr .unavailable, rfl⟩
  | sized size =>
      cases event with
      | available n => cases h
      | received content =>
          rw [Tcp2VmbusThread.step] at h
          split at h
          · cases h
          · cases h
            exact ⟨Or.inr .content, rfl⟩
      | throws =>
          cases h
          exact ⟨Or.inr .failed, rfl⟩
  | pushing p =>
      cases p with
      | called content => exact hpush h
      | read content headers cb position => exact hpush h
      | copied finalOffset position size => exact hpush h
      | returned =>
          cases h
          exact ⟨Or.inr .pushed, rfl⟩
      | threw =>
          cases h
          exact ⟨Or.inr .threw, rfl⟩
  | signalling =>
      cases h
      exact ⟨Or.inr .signalled, rfl⟩
  | dead => cases h

/-- Once `ShouldRunning` is false, each step brings the thread nearer to its end. -/
theorem Tcp2VmbusThread.step_left {v v' : Tcp2VmbusThread} {event : ServiceMain.SocketEvent}
    (h : v.step dev false closed event s = some (v', t)) :
    v'.stepsLeft < v.stepsLeft ∧ v.stores + v'.pushesLeft ≤ v.pushesLeft := by
  rcases (step_moves h).1 with ⟨p, p', rfl, rfl, hsteps⟩ | hmove
  · refine ⟨Nat.add_lt_add_right hsteps 3, ?_⟩
    simp only [stores, pushesLeft, Pusher.pushesLeft]
    cases p <;> simp only [Pusher.stores, Pusher.stepsLeft] at hsteps ⊢ <;> omega
  · cases hmove with
    | enter hrunning => cases hrunning
    | _ => simp [stepsLeft, stores, pushesLeft, Pusher.stepsLeft, Pusher.stores, Pusher.pushesLeft]

/-- A thread that is not dead can take a step, whatever the socket does or if it is closed. -/
theorem Tcp2VmbusThread.step_eq_some {v : Tcp2VmbusThread} (h : v ≠ .dead) :
    ∃ w, v.step dev shouldRunning closed .throws s = some w := by
  cases v with
  | pushing p => cases p <;> exact ⟨_, rfl⟩
  | dead => exact absurd rfl h
  | _ => exact ⟨_, rfl⟩

/-- A packet that is popped and not sent is the last one. -/
theorem Popper.takes_add_mayLose {p p' : Popper} (h : p.step dev session s = some (p', t)) :
    p.takes + p'.mayLose ≤ p.mayLose := by
  cases p with
  | called =>
      cases h
      exact le_rfl
  | read cb position =>
      rw [Popper.step] at h
      split at h <;> cases h <;> exact le_rfl
  | copied content finalOffset position size =>
      cases h
      simp only [takes, mayLose]
      split <;> omega
  | returned content => cases h
  | threw => cases h

theorem Vmbus2TcpThread.takes_add_mayLose {v v' : Vmbus2TcpThread}
    (h : v.step dev session shouldRunning closed throws s = some (v', t)) :
    v.takes + v'.mayLose ≤ v.sends closed throws + v.mayLose := by
  rcases step_moves h with ⟨p, p', rfl, rfl, hp⟩ | ⟨rfl, hmove⟩
  · exact (Popper.takes_add_mayLose hp).trans (Nat.le_add_left _ _)
  · cases hmove with
    | sent hopen hsent => simp [takes, mayLose, sends, hopen, hsent]
    | empty hlength => simp [takes, mayLose, sends, Popper.takes, Popper.mayLose, hlength]
    | _ => simp [takes, mayLose, sends, Popper.takes, Popper.mayLose]

end

namespace ServiceMain

variable {dev : UioHvDevice} {m : Mapping} {s t : ServiceMain} {r : Relay} {l : Label}
  {ls ls' : List Label} {k : ℕ}

/-! ## The steps of the system -/

/-- The session has been, and its threads are not watched any more. -/
def Over (s : ServiceMain) (k : ℕ) : Prop :=
  k + 1 < s.relays.length ∨ k + 1 = s.relays.length ∧ s.phase ≠ .watching

/-- The service thread runs the start of a session, or it starts, stops or closes the last
relay. -/
theorem service_cases (h : serviceStep dev s = some t) :
    (t.relays = s.relays ∧ s.phase ≠ .watching ∧
      ∀ k < s.relays.length, t.shared.deliveredTo k = s.shared.deliveredTo k) ∨
    t.shared = s.shared ∧
      (s.phase ≠ .watching ∧ t.phase = .watching ∧ t.relays = s.relays ++ [.started] ∨
      s.relays.getLast?.any Relay.ended = true ∧
        t.relays = (s.changeLast fun r => { r with shouldRunning := false }) ∨
      s.phase ≠ .watching ∧ t.relays = s.changeLast fun r => { r with closed := true }) := by
  have hpop {p : Popper} (hmap : (p.step dev s.relays.length s.shared).map (fun r =>
      { s with phase := .receiving r.1, shared := r.2 }) = some t) :
      t.relays = s.relays ∧
        ∀ k < s.relays.length, t.shared.deliveredTo k = s.shared.deliveredTo k := by
    obtain ⟨⟨p', sh⟩, hp, rfl⟩ := Option.map_eq_some_iff.mp hmap
    exact ⟨rfl, fun k hk => (Popper.step_left hp).2.2 k hk.ne⟩
  cases hphase : s.phase with
  | looping =>
      rw [serviceStep, hphase] at h
      cases h
  | receiving p =>
      rw [serviceStep, hphase] at h
      cases p with
      | called => exact Or.inl ⟨(hpop h).1, by simp, (hpop h).2⟩
      | read cb position => exact Or.inl ⟨(hpop h).1, by simp, (hpop h).2⟩
      | copied content finalOffset position size => exact Or.inl ⟨(hpop h).1, by simp, (hpop h).2⟩
      | returned content =>
          cases h
          exact Or.inl ⟨rfl, by simp, fun _ _ => rfl⟩
      | threw =>
          cases h
          exact Or.inl ⟨rfl, by simp, fun _ _ => rfl⟩
  | waitingHost =>
      rw [serviceStep, hphase] at h
      cases h
      exact Or.inl ⟨rfl, by simp, fun _ _ => rfl⟩
  | signallingHost =>
      rw [serviceStep, hphase] at h
      cases h
      exact Or.inl ⟨rfl, by simp, fun _ _ => rfl⟩
  | starting =>
      rw [serviceStep, hphase] at h
      cases h
      exact Or.inr ⟨rfl, Or.inl ⟨by simp, rfl, rfl⟩⟩
  | watching =>
      rw [serviceStep, hphase] at h
      simp only at h
      split at h
      · next hended =>
        cases h
        exact Or.inr ⟨rfl, Or.inr (Or.inl ⟨hended, rfl⟩)⟩
      · cases h
  | closing =>
      rw [serviceStep, hphase] at h
      cases h
      exact Or.inr ⟨rfl, Or.inr (Or.inr ⟨by simp, rfl⟩)⟩
  | exited =>
      rw [serviceStep, hphase] at h
      cases h

/-- A change of the last relay changes a relay, or leaves it alone. -/
theorem changeLast_getElem? {f : Relay → Relay} (hk : s.relays[k]? = some r) :
    (s.changeLast f)[k]? = some (f r) ∨ (s.changeLast f)[k]? = some r := by
  rw [changeLast, List.getElem?_modify, hk]
  split
  · exact Or.inl rfl
  · exact Or.inr rfl

/-- What a step means to the relay of a session: one of its threads takes a step, or neither
does and nothing is popped on its behalf. `ShouldRunning` stays false. -/
theorem relay_step (hk : s.relays[k]? = some r) (h : step dev s l = some t) :
    ∃ r', t.relays[k]? = some r' ∧ (r.shouldRunning = false → r'.shouldRunning = false) ∧
      ((∃ throws, l = .vmbus2Tcp k throws ∧ r'.tcp2Vmbus = r.tcp2Vmbus ∧
        r.vmbus2Tcp.step dev k r.shouldRunning r.closed throws s.shared =
          some (r'.vmbus2Tcp, t.shared)) ∨
      (∃ event, l = .tcp2Vmbus k event ∧ r'.vmbus2Tcp = r.vmbus2Tcp ∧
        r.tcp2Vmbus.step dev r.shouldRunning r.closed event s.shared =
          some (r'.tcp2Vmbus, t.shared)) ∨
      (∀ throws, l ≠ .vmbus2Tcp k throws) ∧ (∀ event, l ≠ .tcp2Vmbus k event) ∧
        r'.vmbus2Tcp = r.vmbus2Tcp ∧ r'.tcp2Vmbus = r.tcp2Vmbus ∧
        t.shared.deliveredTo k = s.shared.deliveredTo k) := by
  have hlt := (List.getElem?_eq_some_iff.mp hk).1
  cases l with
  | host m =>
      rw [step] at h
      split at h
      · cases h
        exact ⟨r, hk, id, by simp [Shared.deliveredTo]⟩
      · cases h
  | begin =>
      rw [step] at h
      split at h
      · cases h
        exact ⟨r, hk, id, by simp [Shared.deliveredTo]⟩
      · cases h
  | exit =>
      rw [step] at h
      split at h
      · cases h
        exact ⟨r, hk, id, by simp [Shared.deliveredTo]⟩
      · cases h
  | service =>
      rcases service_cases h with ⟨hrelays, _, hsame⟩ |
        ⟨hshared, ⟨_, _, hrelays⟩ | ⟨_, hrelays⟩ | ⟨_, hrelays⟩⟩
      · exact ⟨r, by rw [hrelays, hk], id, by simp [hsame k hlt]⟩
      · exact ⟨r, by rw [hrelays, List.getElem?_append_left hlt, hk], id, by simp [hshared]⟩
      · rcases changeLast_getElem? (f := fun r => { r with shouldRunning := false }) hk with h | h
        · exact ⟨{ r with shouldRunning := false }, hrelays ▸ h, fun _ => rfl, by simp [hshared]⟩
        · exact ⟨r, hrelays ▸ h, id, by simp [hshared]⟩
      · rcases changeLast_getElem? (f := fun r => { r with closed := true }) hk with h | h
        · exact ⟨{ r with closed := true }, hrelays ▸ h, id, by simp [hshared]⟩
        · exact ⟨r, hrelays ▸ h, id, by simp [hshared]⟩
  | vmbus2Tcp j throws =>
      obtain ⟨x, hx, h⟩ := Option.bind_eq_some_iff.mp h
      obtain ⟨⟨v, sh⟩, hv, rfl⟩ := Option.map_eq_some_iff.mp h
      rcases eq_or_ne k j with rfl | hne
      · obtain rfl : r = x := Option.some.inj (hk.symm.trans hx)
        exact ⟨{ r with vmbus2Tcp := v }, List.getElem?_set_self hlt, id,
          Or.inl ⟨throws, rfl, rfl, hv⟩⟩
      · refine ⟨r, (List.getElem?_set_ne hne.symm).trans hk, id,
          Or.inr (Or.inr ⟨?_, ?_, rfl, rfl, ?_⟩)⟩
        · simp [hne.symm]
        · simp
        · exact Vmbus2TcpThread.deliveredTo_step hne hv
  | tcp2Vmbus j event =>
      obtain ⟨x, hx, h⟩ := Option.bind_eq_some_iff.mp h
      obtain ⟨⟨v, sh⟩, hv, rfl⟩ := Option.map_eq_some_iff.mp h
      rcases eq_or_ne k j with rfl | hne
      · obtain rfl : r = x := Option.some.inj (hk.symm.trans hx)
        exact ⟨{ r with tcp2Vmbus := v }, List.getElem?_set_self hlt, id,
          Or.inr (Or.inl ⟨event, rfl, rfl, hv⟩)⟩
      · refine ⟨r, (List.getElem?_set_ne hne.symm).trans hk, id,
          Or.inr (Or.inr ⟨?_, ?_, rfl, rfl, ?_⟩)⟩
        · simp
        · simp [hne.symm]
        · simp only [Shared.deliveredTo, (Tcp2VmbusThread.step_moves hv).2]

/-! ## A session that is over -/

theorem ended_iff : r.ended = true ↔ r.vmbus2Tcp = .dead ∨ r.tcp2Vmbus = .dead := by
  cases hv : r.vmbus2Tcp <;> cases ht : r.tcp2Vmbus <;> simp [Relay.ended, hv, ht]

/-- One thread of the sessions that are over has died, and the other has been told to stop. -/
def Stopped (s : ServiceMain) : Prop :=
  ∀ k r, s.relays[k]? = some r → s.Over k → r.shouldRunning = false ∧ r.ended = true

theorem over_of_not_watching (hk : s.relays[k]? = some r) (hphase : s.phase ≠ .watching) :
    s.Over k := by
  have hlt := (List.getElem?_eq_some_iff.mp hk).1
  rcases Nat.lt_or_eq_of_le hlt with hlt | heq
  · exact Or.inl hlt
  · exact Or.inr ⟨heq, hphase⟩

theorem Stopped.of_relays (H : s.Stopped) (hrelays : t.relays = s.relays)
    (hphase : s.phase ≠ .watching) : t.Stopped := by
  intro k r hk _
  rw [hrelays] at hk
  exact H k r hk (over_of_not_watching hk hphase)

/-- A step of a relay thread leaves `ShouldRunning` and a dead thread alone. -/
theorem Stopped.set {sh : Shared} {r' : Relay} (H : s.Stopped) (hk : s.relays[k]? = some r)
    (hrunning : r'.shouldRunning = r.shouldRunning) (hended : r.ended = true → r'.ended = true) :
    Stopped { s with shared := sh, relays := s.relays.set k r' } := by
  intro j x hj hover
  have hover' : s.Over j := by simpa [Over] using hover
  rcases eq_or_ne k j with rfl | hne
  · rw [List.getElem?_set_self (List.getElem?_eq_some_iff.mp hk).1, Option.some.injEq] at hj
    obtain ⟨hstopped, hdead⟩ := H k r hk hover'
    rw [← hj, hrunning]
    exact ⟨hstopped, hended hdead⟩
  · rw [List.getElem?_set_ne hne] at hj
    exact H j x hj hover'

theorem Stopped.service (H : s.Stopped) (h : serviceStep dev s = some t) : t.Stopped := by
  rcases service_cases h with ⟨hrelays, hphase, _⟩ |
    ⟨_, ⟨hphase, hwatching, hrelays⟩ | ⟨hended, hrelays⟩ | ⟨hphase, hrelays⟩⟩
  · exact H.of_relays hrelays hphase
  · -- The relay that starts is watched, and those before it were over.
    intro k r hk hover
    have hlt : k < s.relays.length := by
      rw [Over, hrelays, List.length_append, List.length_singleton] at hover
      rcases hover with hlt | ⟨_, hnot⟩
      · omega
      · exact absurd hwatching hnot
    rw [hrelays, List.getElem?_append_left hlt] at hk
    exact H k r hk (over_of_not_watching hk hphase)
  · intro k r hk _
    rw [hrelays] at hk
    obtain ⟨x, hx, ⟨hlast, rfl⟩ | ⟨hlt, rfl⟩⟩ := getElem?_changeLast hk
    · refine ⟨rfl, ?_⟩
      have hget : s.relays.getLast? = some x := by
        rw [List.getLast?_eq_getElem?, ← hlast, Nat.add_sub_cancel, hx]
      rw [hget, Option.any_some] at hended
      exact hended
    · exact H k r hx (Or.inl hlt)
  · intro k r hk _
    rw [hrelays] at hk
    obtain ⟨x, hx, ⟨_, rfl⟩ | ⟨_, rfl⟩⟩ := getElem?_changeLast hk
    · exact H k x hx (over_of_not_watching hx hphase)
    · exact H k r hx (over_of_not_watching hx hphase)

theorem Stopped.step (H : s.Stopped) (h : step dev s l = some t) : t.Stopped := by
  cases l with
  | host m =>
      rw [ServiceMain.step] at h
      split at h
      · cases h
        exact H
      · cases h
  | begin =>
      rw [ServiceMain.step] at h
      split at h
      · next hphase =>
        cases h
        exact H.of_relays rfl (by simp [hphase])
      · cases h
  | exit =>
      rw [ServiceMain.step] at h
      split at h
      · next hphase =>
        cases h
        exact H.of_relays rfl (by simp [hphase])
      · cases h
  | service => exact H.service h
  | vmbus2Tcp j throws =>
      obtain ⟨x, hx, h⟩ := Option.bind_eq_some_iff.mp h
      obtain ⟨⟨v, sh⟩, hv, rfl⟩ := Option.map_eq_some_iff.mp h
      refine H.set hx rfl fun hended => ended_iff.mpr ?_
      rcases ended_iff.mp hended with hdead | hdead
      · rw [hdead] at hv
        cases hv
      · exact Or.inr hdead
  | tcp2Vmbus j event =>
      obtain ⟨x, hx, h⟩ := Option.bind_eq_some_iff.mp h
      obtain ⟨⟨v, sh⟩, hv, rfl⟩ := Option.map_eq_some_iff.mp h
      refine H.set hx rfl fun hended => ended_iff.mpr ?_
      rcases ended_iff.mp hended with hdead | hdead
      · exact Or.inl hdead
      · rw [hdead] at hv
        cases hv

/-- A session that is over in a state that is reached has been told to stop because one of its
threads has died. -/
theorem stopped_of_over (h : exec (step dev) (start dev m) ls = some s) (hover : s.Over k) :
    ∃ r, s.relays[k]? = some r ∧ r.shouldRunning = false ∧
      (r.vmbus2Tcp = .dead ∨ r.tcp2Vmbus = .dead) := by
  have hlt : k < s.relays.length := by
    rcases hover with hlt | ⟨heq, _⟩
    · omega
    · omega
  have hstopped : s.Stopped :=
    exec_invariant (fun _ _ _ H h => H.step h) (fun _ _ hk => by cases hk) h
  have hk := List.getElem?_eq_getElem hlt
  obtain ⟨hrunning, hended⟩ := hstopped k _ hk hover
  exact ⟨s.relays[k], hk, hrunning, ended_iff.mp hended⟩

/-! ## What a session does in a run -/

/-- A number for the steps of the `Vmbus2TcpThread` of a session. -/
def ofVmbus2Tcp (k : ℕ) (n : Bool → ℕ) : Label → ℕ
  | .vmbus2Tcp j throws => if j = k then n throws else 0
  | _ => 0

def ofTcp2Vmbus (k n : ℕ) : Label → ℕ
  | .tcp2Vmbus j _ => if j = k then n else 0
  | _ => 0

/-- The packets that a session pushes in a step. -/
def pushes (k : ℕ) (s : ServiceMain) : Label → ℕ :=
  ofTcp2Vmbus k (s.relays[k]?.elim 0 fun r => r.tcp2Vmbus.stores)

/-- The packets with a content that the relay of a session pops in a step. -/
def pops (k : ℕ) (s : ServiceMain) : Label → ℕ :=
  ofVmbus2Tcp k fun _ => s.relays[k]?.elim 0 fun r => r.vmbus2Tcp.takes

/-- The packets that the relay of a session sends in a step. -/
def sends (k : ℕ) (s : ServiceMain) : Label → ℕ :=
  ofVmbus2Tcp k fun throws => s.relays[k]?.elim 0 fun r => r.vmbus2Tcp.sends r.closed throws

@[simp] theorem ofVmbus2Tcp_self {n : Bool → ℕ} {throws : Bool} :
    ofVmbus2Tcp k n (.vmbus2Tcp k throws) = n throws := if_pos rfl

@[simp] theorem ofTcp2Vmbus_self {n : ℕ} {event : SocketEvent} :
    ofTcp2Vmbus k n (.tcp2Vmbus k event) = n := if_pos rfl

@[simp] theorem ofVmbus2Tcp_tcp2Vmbus {n : Bool → ℕ} {j : ℕ} {event : SocketEvent} :
    ofVmbus2Tcp k n (.tcp2Vmbus j event) = 0 := rfl

@[simp] theorem ofTcp2Vmbus_vmbus2Tcp {n j : ℕ} {throws : Bool} :
    ofTcp2Vmbus k n (.vmbus2Tcp j throws) = 0 := rfl

theorem ofVmbus2Tcp_of_ne {n : Bool → ℕ} (h : ∀ throws, l ≠ .vmbus2Tcp k throws) :
    ofVmbus2Tcp k n l = 0 := by
  cases l with
  | vmbus2Tcp j throws =>
      refine if_neg ?_
      rintro rfl
      exact h throws rfl
  | _ => rfl

theorem ofTcp2Vmbus_of_ne {n : ℕ} (h : ∀ event, l ≠ .tcp2Vmbus k event) :
    ofTcp2Vmbus k n l = 0 := by
  cases l with
  | tcp2Vmbus j event =>
      refine if_neg ?_
      rintro rfl
      exact h event rfl
  | _ => rfl

/-- A relay after a step: what its threads have done is what they have less to do. -/
structure Nearer (k : ℕ) (s t : ServiceMain) (l : Label) (r r' : Relay) : Prop where
  relay : t.relays[k]? = some r'
  stopped : r'.shouldRunning = false
  vmbus2Tcp : ofVmbus2Tcp k (fun _ => 1) l + r'.vmbus2Tcp.stepsLeft ≤ r.vmbus2Tcp.stepsLeft
  tcp2Vmbus : ofTcp2Vmbus k 1 l + r'.tcp2Vmbus.stepsLeft ≤ r.tcp2Vmbus.stepsLeft
  popped : t.shared.deliveredTo k + r'.vmbus2Tcp.popsLeft ≤
    s.shared.deliveredTo k + r.vmbus2Tcp.popsLeft
  pushed : pushes k s l + r'.tcp2Vmbus.pushesLeft ≤ r.tcp2Vmbus.pushesLeft

theorem nearer_of_stopped (hk : s.relays[k]? = some r) (hstopped : r.shouldRunning = false)
    (h : step dev s l = some t) : ∃ r', Nearer k s t l r r' := by
  obtain ⟨r', hk', hstays, hcases⟩ := relay_step hk h
  refine ⟨r', ?_⟩
  rcases hcases with ⟨throws, rfl, hsame, hv⟩ | ⟨event, rfl, hsame, hv⟩ |
    ⟨hnot, hnot', hsame, hsame', hdelivered⟩
  · rw [hstopped] at hv
    obtain ⟨hsteps, hpops⟩ := Vmbus2TcpThread.step_left hv
    exact {
      relay := hk'
      stopped := hstays hstopped
      vmbus2Tcp := by simp only [ofVmbus2Tcp_self]; omega
      tcp2Vmbus := by simp [hsame]
      popped := hpops
      pushed := by simp [pushes, hsame] }
  · rw [hstopped] at hv
    obtain ⟨hsteps, hpushes⟩ := Tcp2VmbusThread.step_left hv
    have hdelivered := (Tcp2VmbusThread.step_moves hv).2
    exact {
      relay := hk'
      stopped := hstays hstopped
      vmbus2Tcp := by simp [hsame]
      tcp2Vmbus := by simp only [ofTcp2Vmbus_self]; omega
      popped := by simp only [Shared.deliveredTo, hdelivered, hsame]; exact le_rfl
      pushed := by simpa only [pushes, ofTcp2Vmbus_self, hk, Option.elim_some] using hpushes }
  · exact {
      relay := hk'
      stopped := hstays hstopped
      vmbus2Tcp := by simp [hsame, ofVmbus2Tcp_of_ne hnot]
      tcp2Vmbus := by simp [hsame', ofTcp2Vmbus_of_ne hnot']
      popped := by rw [hdelivered, hsame]
      pushed := by simp [pushes, hsame', ofTcp2Vmbus_of_ne hnot'] }

/-- What the threads of a stopped session do is bounded by what they have left. -/
theorem cost_le_of_stopped {f : ServiceMain → Label → ℕ} {left : Relay → ℕ}
    (hleft : ∀ s t l r r', Nearer k s t l r r' → f s l + left r' ≤ left r)
    (hk : s.relays[k]? = some r) (hstopped : r.shouldRunning = false)
    (h : exec (step dev) s ls = some t) : cost (step dev) f s ls ≤ left r := by
  obtain ⟨n, _, hle⟩ := cost_add_le_credit (f := f)
    (P := fun n s => ∃ r, s.relays[k]? = some r ∧ r.shouldRunning = false ∧ left r = n)
    (fun n s l t ⟨r, hk, hstopped, hn⟩ h => by
      obtain ⟨r', H⟩ := nearer_of_stopped hk hstopped h
      exact ⟨left r', ⟨r', H.relay, H.stopped, rfl⟩, hn ▸ hleft s t l r r' H⟩)
    ⟨r, hk, hstopped, rfl⟩ h
  omega

/-- A session is stopped, and will have popped at most `n` packets in the end. -/
def PopsWithin (k n : ℕ) (s : ServiceMain) : Prop :=
  ∃ r, s.relays[k]? = some r ∧ r.shouldRunning = false ∧
    s.shared.deliveredTo k + r.vmbus2Tcp.popsLeft ≤ n

theorem PopsWithin.step {n : ℕ} (H : PopsWithin k n s) (h : step dev s l = some t) :
    PopsWithin k n t := by
  obtain ⟨r, hk, hstopped, hle⟩ := H
  obtain ⟨r', hnearer⟩ := nearer_of_stopped hk hstopped h
  exact ⟨r', hnearer.relay, hnearer.stopped, hnearer.popped.trans hle⟩

theorem popsWithin_exec {n : ℕ} (H : PopsWithin k n s) (h : exec (step dev) s ls = some t) :
    PopsWithin k n t := exec_invariant (fun _ _ _ H h => H.step h) H h

/-- **A session that is over dies out.** In every run, one thread of a session that is over
has died, and the other takes at most six more steps, or eight, whatever the other threads,
the host and the socket do; as long as it is alive it can take a step. -/
theorem steps_of_over (h₀ : exec (step dev) (start dev m) ls = some s) (hover : s.Over k)
    (h : exec (step dev) s ls' = some t) :
    (∃ r, s.relays[k]? = some r ∧
      (r.vmbus2Tcp = .dead ∧ cost (step dev) (fun _ => ofVmbus2Tcp k fun _ => 1) s ls' = 0 ∧
          cost (step dev) (fun _ => ofTcp2Vmbus k 1) s ls' ≤ 8 ∨
        r.tcp2Vmbus = .dead ∧ cost (step dev) (fun _ => ofVmbus2Tcp k fun _ => 1) s ls' ≤ 6 ∧
          cost (step dev) (fun _ => ofTcp2Vmbus k 1) s ls' = 0)) ∧
    ∃ r, t.relays[k]? = some r ∧
      (r.vmbus2Tcp = .dead ∨ ∀ throws, ∃ u, step dev t (.vmbus2Tcp k throws) = some u) ∧
      (r.tcp2Vmbus = .dead ∨ ∃ u, step dev t (.tcp2Vmbus k .throws) = some u) := by
  obtain ⟨r, hk, hstopped, hdead⟩ := stopped_of_over h₀ hover
  obtain ⟨r', hk', _⟩ := popsWithin_exec ⟨r, hk, hstopped, le_rfl⟩ h
  have hvmbus := cost_le_of_stopped (fun _ _ _ _ _ H => H.vmbus2Tcp) hk hstopped h
  have htcp := cost_le_of_stopped (fun _ _ _ _ _ H => H.tcp2Vmbus) hk hstopped h
  refine ⟨⟨r, hk, ?_⟩, r', hk', ?_, ?_⟩
  · rcases hdead with hdead | hdead
    · rw [hdead] at hvmbus
      exact Or.inl ⟨hdead, Nat.le_zero.mp hvmbus, htcp.trans r.tcp2Vmbus.stepsLeft_le⟩
    · rw [hdead] at htcp
      exact Or.inr ⟨hdead, hvmbus.trans r.vmbus2Tcp.stepsLeft_le, Nat.le_zero.mp htcp⟩
  · refine or_iff_not_imp_left.mpr fun halive throws => ?_
    obtain ⟨w, hw⟩ := Vmbus2TcpThread.step_eq_some halive
    exact ⟨_, Option.bind_eq_some_iff.mpr ⟨r', hk', Option.map_eq_some_iff.mpr ⟨w, hw, rfl⟩⟩⟩
  · refine or_iff_not_imp_left.mpr fun halive => ?_
    obtain ⟨w, hw⟩ := Tcp2VmbusThread.step_eq_some halive
    exact ⟨_, Option.bind_eq_some_iff.mpr ⟨r', hk', Option.map_eq_some_iff.mpr ⟨w, hw, rfl⟩⟩⟩

/-! ### A session with a late thread -/

/-- A session relays one of two packets that the host puts, and is over with its
`Vmbus2TcpThread` in the pop of the other. -/
def relayedSession (m : Mapping) : List Label :=
  .begin :: ([.service, .service, .service, .service, .service] ++ [.host m]) ++
    (List.replicate 8 (.vmbus2Tcp 0 false) ++
      [.tcp2Vmbus 0 .throws, .tcp2Vmbus 0 .throws, .service, .service])

/-- The next session begins, and the thread pops the packet, finds the socket closed and dies. -/
def lateThread : List Label :=
  [.vmbus2Tcp 0 false, .begin, .vmbus2Tcp 0 false, .vmbus2Tcp 0 false, .vmbus2Tcp 0 false]

/-- What is shared after a pop of the first session. -/
def popped (dev : UioHvDevice) (sh : Shared) (finalOffset : UInt32) (position size : ℕ) : Shared :=
  ⟨popStore dev finalOffset sh.mapping, position + size, sh.inPosition,
    sh.delivered ++ [(0, position)]⟩

/-- The relay of a session that lasts, and of one that is over. -/
def lasting (v : Vmbus2TcpThread) : Relay := ⟨true, false, v, .test⟩
def unjoined (v : Vmbus2TcpThread) : Relay := ⟨false, true, v, .dead⟩

section

variable {sh sh' : Shared} {phase : ServicePhase} {content : List UInt8} {finalOffset : UInt32}

/-- A step of the thread of the only session. -/
theorem step_vmbus2Tcp_zero {throws : Bool} {v : Vmbus2TcpThread}
    (h : r.vmbus2Tcp.step dev 0 r.shouldRunning r.closed throws sh = some (v, sh')) :
    step dev ⟨sh, phase, [r]⟩ (.vmbus2Tcp 0 throws) =
      some ⟨sh', phase, [{ r with vmbus2Tcp := v }]⟩ := by
  simp only [ServiceMain.step, List.getElem?_cons_zero, Option.bind_some, h, Option.map_some,
    List.set_cons_zero]

theorem deliveredTo_popped {position size : ℕ} :
    (popped dev sh finalOffset position size).deliveredTo 0 = sh.deliveredTo 0 + 1 := by
  simp [Shared.deliveredTo, popped]

/-- The copy of a pop. -/
theorem step_vmbus2Tcp_read {cb : RingControlBlock} {position : ℕ} (phase : ServicePhase)
    (hv : r.vmbus2Tcp = .popping (.read cb position))
    (hpop : popCopy dev cb sh.mapping = .ok (some (content, finalOffset))) :
    step dev ⟨sh, phase, [r]⟩ (.vmbus2Tcp 0 false) = some ⟨sh, phase, [{ r with
      vmbus2Tcp := .popping (.copied content finalOffset position
        (distance dev.dataMaximumSize finalOffset.toNat cb.Out.toNat)) }]⟩ := by
  refine step_vmbus2Tcp_zero ?_
  rw [hv]
  change ((Popper.read _ _).step dev 0 sh).map _ = _
  rw [Popper.step_read_ok hpop]
  rfl

theorem step_vmbus2Tcp_returned (sh : Shared) (phase : ServicePhase) (hcontent : content ≠ [])
    (hv : r.vmbus2Tcp = .popping (.returned content)) :
    step dev ⟨sh, phase, [r]⟩ (.vmbus2Tcp 0 false) =
      some ⟨sh, phase, [{ r with vmbus2Tcp := .sending }]⟩ := by
  refine step_vmbus2Tcp_zero ?_
  rw [hv, Vmbus2TcpThread.step, if_neg (by simpa using hcontent)]

/-- A packet is popped and sent, and the control block is read for the next one. -/
theorem exec_relay (sh : Shared) (hcontent : content ≠ [])
    (hpop : popCopy dev (incoming dev sh.mapping) sh.mapping = .ok (some (content, finalOffset))) :
    ∃ u : Shared, u.mapping = popStore dev finalOffset sh.mapping ∧
      u.deliveredTo 0 = sh.deliveredTo 0 + 1 ∧
      exec (step dev) ⟨sh, .watching, [.started]⟩ (List.replicate 8 (.vmbus2Tcp 0 false)) =
        some ⟨u, .watching, [lasting (.popping (.read (incoming dev u.mapping) u.outPosition))]⟩ ∧
      cost (step dev) (pops 0) ⟨sh, .watching, [.started]⟩
        (List.replicate 8 (.vmbus2Tcp 0 false)) = 1 ∧
      cost (step dev) (sends 0) ⟨sh, .watching, [.started]⟩
        (List.replicate 8 (.vmbus2Tcp 0 false)) = 1 := by
  have h₁ : step dev ⟨sh, .watching, [.started]⟩ (.vmbus2Tcp 0 false) =
      some ⟨sh, .watching, [lasting (.popping .called)]⟩ := rfl
  have h₂ : step dev ⟨sh, .watching, [lasting (.popping .called)]⟩ (.vmbus2Tcp 0 false) =
      some ⟨sh, .watching, [lasting (.popping (.read (incoming dev sh.mapping)
        sh.outPosition))]⟩ := rfl
  have h₃ : step dev ⟨sh, .watching, [lasting (.popping (.read (incoming dev sh.mapping)
      sh.outPosition))]⟩ (.vmbus2Tcp 0 false) = some ⟨sh, .watching, [lasting (.popping
        (.copied content finalOffset sh.outPosition (distance dev.dataMaximumSize
          finalOffset.toNat (incoming dev sh.mapping).Out.toNat)))]⟩ :=
    step_vmbus2Tcp_read .watching rfl hpop
  generalize distance _ _ _ = size at h₃
  generalize hu : popped dev sh finalOffset sh.outPosition size = u
  have h₄ : step dev ⟨sh, .watching, [lasting (.popping (.copied content finalOffset
      sh.outPosition size))]⟩ (.vmbus2Tcp 0 false) =
      some ⟨u, .watching, [lasting (.popping (.returned content))]⟩ := by
    rw [← hu]
    rfl
  have h₅ : step dev ⟨u, .watching, [lasting (.popping (.returned content))]⟩
      (.vmbus2Tcp 0 false) = some ⟨u, .watching, [lasting .sending]⟩ :=
    step_vmbus2Tcp_returned u .watching hcontent rfl
  have h₆ : step dev ⟨u, .watching, [lasting .sending]⟩ (.vmbus2Tcp 0 false) =
      some ⟨u, .watching, [lasting .test]⟩ := rfl
  have h₇ : step dev ⟨u, .watching, [lasting .test]⟩ (.vmbus2Tcp 0 false) =
      some ⟨u, .watching, [lasting (.popping .called)]⟩ := rfl
  have h₈ : step dev ⟨u, .watching, [lasting (.popping .called)]⟩ (.vmbus2Tcp 0 false) =
      some ⟨u, .watching, [lasting (.popping (.read (incoming dev u.mapping)
        u.outPosition))]⟩ := rfl
  refine ⟨u, by rw [← hu]; rfl, by rw [← hu, deliveredTo_popped], ?_, ?_, ?_⟩
  · exact (exec_cons h₁).trans ((exec_cons h₂).trans ((exec_cons h₃).trans ((exec_cons h₄).trans
      ((exec_cons h₅).trans ((exec_cons h₆).trans ((exec_cons h₇).trans (exec_cons h₈)))))))
  · rw [List.replicate, cost_cons h₁, List.replicate, cost_cons h₂, List.replicate, cost_cons h₃,
      List.replicate, cost_cons h₄, List.replicate, cost_cons h₅, List.replicate, cost_cons h₆,
      List.replicate, cost_cons h₇, List.replicate, cost_cons h₈]
    simp [pops, lasting, Relay.started, Vmbus2TcpThread.takes, Popper.takes, hcontent]
  · rw [List.replicate, cost_cons h₁, List.replicate, cost_cons h₂, List.replicate, cost_cons h₃,
      List.replicate, cost_cons h₄, List.replicate, cost_cons h₅, List.replicate, cost_cons h₆,
      List.replicate, cost_cons h₇, List.replicate, cost_cons h₈]
    simp [sends, lasting, Relay.started, Vmbus2TcpThread.sends]

theorem exec_over (dev : UioHvDevice) (sh : Shared) (p : Popper) : exec (step dev) ⟨sh, .watching, [lasting (.popping p)]⟩
    [.tcp2Vmbus 0 .throws, .tcp2Vmbus 0 .throws, .service, .service] =
      some ⟨sh, .looping, [unjoined (.popping p)]⟩ := by
  have h₁ : step dev ⟨sh, .watching, [lasting (.popping p)]⟩ (.tcp2Vmbus 0 .throws) =
      some ⟨sh, .watching, [⟨true, false, .popping p, .entered⟩]⟩ := rfl
  have h₂ : step dev ⟨sh, .watching, [⟨true, false, .popping p, .entered⟩]⟩
      (.tcp2Vmbus 0 .throws) = some ⟨sh, .watching, [⟨true, false, .popping p, .dead⟩]⟩ := rfl
  have h₃ : step dev ⟨sh, .watching, [⟨true, false, .popping p, .dead⟩]⟩ .service =
      some ⟨sh, .closing, [⟨false, false, .popping p, .dead⟩]⟩ := rfl
  have h₄ : step dev ⟨sh, .closing, [⟨false, false, .popping p, .dead⟩]⟩ .service =
      some ⟨sh, .looping, [unjoined (.popping p)]⟩ := rfl
  rw [exec_cons h₁, exec_cons h₂, exec_cons h₃, exec_cons h₄, exec_nil]

/-- The packet that the thread has not copied yet is popped and lost. -/
theorem exec_lateThread {cb : RingControlBlock} (position : ℕ) (hcontent : content ≠ [])
    (hpop : popCopy dev cb sh.mapping = .ok (some (content, finalOffset))) :
    ∃ t, exec (step dev) ⟨sh, .looping, [unjoined (.popping (.read cb position))]⟩ lateThread =
        some t ∧
      t.relays = [⟨false, true, .dead, .dead⟩] ∧
      t.shared.deliveredTo 0 = sh.deliveredTo 0 + 1 ∧
      cost (step dev) (pops 0) ⟨sh, .looping, [unjoined (.popping (.read cb position))]⟩
        lateThread = 1 ∧
      cost (step dev) (sends 0) ⟨sh, .looping, [unjoined (.popping (.read cb position))]⟩
        lateThread = 0 := by
  have h₁ : step dev ⟨sh, .looping, [unjoined (.popping (.read cb position))]⟩
      (.vmbus2Tcp 0 false) = some ⟨sh, .looping, [unjoined (.popping (.copied content finalOffset
        position (distance dev.dataMaximumSize finalOffset.toNat cb.Out.toNat)))]⟩ :=
    step_vmbus2Tcp_read .looping rfl hpop
  generalize distance _ _ _ = size at h₁
  generalize hu : ({ sh with mapping := interruptControl dev true sh.mapping } : Shared) = u
  generalize hv : popped dev u finalOffset position size = v
  have h₂ : step dev ⟨sh, .looping, [unjoined (.popping (.copied content finalOffset position
      size))]⟩ .begin = some ⟨u, .receiving .called, [unjoined (.popping (.copied content
        finalOffset position size))]⟩ := by
    rw [← hu]
    rfl
  have h₃ : step dev ⟨u, .receiving .called, [unjoined (.popping (.copied content finalOffset
      position size))]⟩ (.vmbus2Tcp 0 false) =
      some ⟨v, .receiving .called, [unjoined (.popping (.returned content))]⟩ := by
    rw [← hv]
    rfl
  have h₄ : step dev ⟨v, .receiving .called, [unjoined (.popping (.returned content))]⟩
      (.vmbus2Tcp 0 false) = some ⟨v, .receiving .called, [unjoined .sending]⟩ :=
    step_vmbus2Tcp_returned v (.receiving .called) hcontent rfl
  have h₅ : step dev ⟨v, .receiving .called, [unjoined .sending]⟩ (.vmbus2Tcp 0 false) =
      some ⟨v, .receiving .called, [⟨false, true, .dead, .dead⟩]⟩ := rfl
  refine ⟨⟨v, .receiving .called, [⟨false, true, .dead, .dead⟩]⟩, ?_, rfl, ?_, ?_, ?_⟩
  · rw [lateThread, exec_cons h₁, exec_cons h₂, exec_cons h₃, exec_cons h₄, exec_cons h₅, exec_nil]
  · rw [← hv, deliveredTo_popped, ← hu]
    rfl
  · rw [lateThread, cost_cons h₁, cost_cons h₂, cost_cons h₃, cost_cons h₄, cost_cons h₅]
    simp [pops, unjoined, ofVmbus2Tcp, Vmbus2TcpThread.takes, Popper.takes, hcontent]
  · rw [lateThread, cost_cons h₁, cost_cons h₂, cost_cons h₃, cost_cons h₄, cost_cons h₅]
    simp [sends, unjoined, ofVmbus2Tcp, Vmbus2TcpThread.sends]

end

/-- Two packets of seventeen bytes that the host puts into the ring of a device just opened. -/
theorem exists_twoPackets : ∃ m finalOffset finalOffset',
    HostWrites .defaultRings (interruptControl .defaultRings true fun _ => 0) m ∧
    popCopy .defaultRings (incoming .defaultRings m) m =
      .ok (some (List.replicate 17 0, finalOffset)) ∧
    popCopy .defaultRings (incoming .defaultRings (popStore .defaultRings finalOffset m))
      (popStore .defaultRings finalOffset m) = .ok (some (List.replicate 17 0, finalOffset')) := by
  have hzeros : IncomingRing .defaultRings (fun _ => 0) [] := .empty rfl rfl
  have hring : IncomingRing .defaultRings (interruptControl .defaultRings true fun _ => 0) [] :=
    hzeros.interruptControl
  have hOut : (incoming .defaultRings (interruptControl .defaultRings true fun _ => 0)).Out = 0 := by
    rw [incoming_interruptControl]
    rfl
  obtain ⟨m₁, hput⟩ := hring.exists_put (p := .zeros 17 (by decide)) (by decide)
  have hring₁ := hring.put hput
  obtain ⟨m₂, hput'⟩ := hring₁.exists_put (p := .zeros 17 (by decide)) (by decide)
  have hring₂ := hring₁.put hput'
  have effect := (putEffect_of_hostPut hput).2
  have effect' := (putEffect_of_hostPut hput').2
  have hout := effect'.out_eq.trans effect.out_eq
  have hpop := hring₂.pop (by rw [hout, hOut]; decide)
  have hsecond := hring₂.popStore
  have hOut' : (UInt32.ofNat (advance UioHvDevice.defaultRings.dataMaximumSize 0
      (packetSize 17))).toNat < UioHvDevice.defaultRings.dataMaximumSize := by decide
  have hpop' := hsecond.pop (by
    rw [incoming_popStore, hout, hOut, PipePacket.size_zeros]
    exact hOut')
  refine ⟨m₂, _, _, ⟨hout, ?_, hring₂.in_lt, ?_⟩, hpop, hpop'⟩
  · rw [effect'.outgoing_eq, effect.outgoing_eq]
  · rw [effect'.outgoing_eq, effect.outgoing_eq, outgoing_interruptControl]
    decide

/-- The run: the one packet is sent, and the other is popped after the session and lost. -/
theorem exec_stale : ∃ m s t,
    exec (step .defaultRings) (start .defaultRings fun _ => 0) (relayedSession m) = some s ∧
    exec (step .defaultRings) s lateThread = some t ∧ s.Over 0 ∧
    (∃ p, s.relays = [unjoined (.popping p)]) ∧ t.relays = [⟨false, true, .dead, .dead⟩] ∧
    s.shared.deliveredTo 0 = 1 ∧ t.shared.deliveredTo 0 = 2 ∧
    cost (step .defaultRings) (pops 0) (start .defaultRings fun _ => 0)
      (relayedSession m ++ lateThread) = 2 ∧
    cost (step .defaultRings) (sends 0) (start .defaultRings fun _ => 0)
      (relayedSession m ++ lateThread) = 1 := by
  obtain ⟨m, finalOffset, finalOffset', hhost, hpop, hpop'⟩ := exists_twoPackets
  generalize hm₁ : interruptControl .defaultRings true (fun _ => 0) = m₁ at hhost
  have hcontent : (List.replicate 17 0 : List UInt8) ≠ [] := by decide
  have hbegin : step .defaultRings (start .defaultRings fun _ => 0) .begin =
      some ⟨⟨m₁, 0, 0, []⟩, .receiving .called, []⟩ := by
    rw [← hm₁]
    rfl
  have hnone : popCopy .defaultRings (incoming .defaultRings m₁) m₁ = .ok none := by
    refine popCopy_of_zero ?_ ?_ <;> rw [← hm₁, incoming_interruptControl] <;> rfl
  have hreceive : exec (step .defaultRings) ⟨⟨m₁, 0, 0, []⟩, .receiving .called, []⟩
      [.service, .service, .service, .service, .service] =
      some ⟨⟨m₁, 0, 0, []⟩, .watching, [.started]⟩ := exec_receive ⟨m₁, 0, 0, []⟩ [] hnone
  have hput : step .defaultRings ⟨⟨m₁, 0, 0, []⟩, .watching, [.started]⟩ (.host m) =
      some ⟨⟨m, 0, 0, []⟩, .watching, [.started]⟩ := if_pos hhost
  have hahead : exec (step .defaultRings) (start .defaultRings fun _ => 0)
      (.begin :: ([.service, .service, .service, .service, .service] ++ [.host m])) =
      some ⟨⟨m, 0, 0, []⟩, .watching, [.started]⟩ := by
    rw [exec_cons hbegin, exec_append _ hreceive, exec_cons hput, exec_nil]
  obtain ⟨u, hmapping, hdelivered, hrelay, hpops, hsends⟩ :=
    exec_relay ⟨m, 0, 0, []⟩ hcontent hpop
  have hover := exec_over .defaultRings u (.read (incoming .defaultRings u.mapping) u.outPosition)
  rw [← hmapping] at hpop'
  obtain ⟨t, hlate, hdead, hdelivered', hpops', hsends'⟩ :=
    exec_lateThread u.outPosition hcontent hpop'
  have hsession : exec (step .defaultRings) (start .defaultRings fun _ => 0) (relayedSession m) =
      some ⟨u, .looping, [unjoined (.popping (.read (incoming .defaultRings u.mapping)
        u.outPosition))]⟩ := by
    rw [relayedSession, exec_append _ hahead, exec_append _ hrelay, hover]
  have hbefore : (⟨m, 0, 0, []⟩ : Shared).deliveredTo 0 = 0 := rfl
  rw [hbefore] at hdelivered
  rw [hdelivered] at hdelivered'
  refine ⟨m, _, t, hsession, hlate, Or.inr ⟨rfl, by simp⟩, ⟨_, rfl⟩, hdead, hdelivered,
    hdelivered', ?_, ?_⟩
  · rw [cost_append _ hsession, relayedSession, cost_append _ hahead, cost_append _ hrelay, hpops,
      hpops', cost_of_labels (by simp [pops, ofVmbus2Tcp]),
      cost_of_labels (by simp [pops, ofVmbus2Tcp])]
  · rw [cost_append _ hsession, relayedSession, cost_append _ hahead, cost_append _ hrelay, hsends,
      hsends', cost_of_labels (by simp [sends, ofVmbus2Tcp]),
      cost_of_labels (by simp [sends, ofVmbus2Tcp])]

/-- The thread takes four of its six steps and is dead. -/
theorem steps_of_over_stale : ∃ s t, s.Over 0 ∧ exec (step .defaultRings) s lateThread = some t ∧
    t.relays = [⟨false, true, .dead, .dead⟩] ∧
    cost (step .defaultRings) (fun _ => ofVmbus2Tcp 0 fun _ => 1) s lateThread ≤ 6 ∧
    cost (step .defaultRings) (fun _ => ofTcp2Vmbus 0 1) s lateThread = 0 := by
  obtain ⟨m, s, t, hs, ht, hover, ⟨p, hp⟩, hdead, _⟩ := exec_stale
  obtain ⟨⟨r, hr, hbounds⟩, _⟩ := steps_of_over hs hover ht
  rw [hp, List.getElem?_cons_zero, Option.some.injEq] at hr
  subst hr
  rcases hbounds with ⟨hv, _⟩ | ⟨_, hvmbus, htcp⟩
  · cases hv
  · exact ⟨s, t, hover, ht, hdead, hvmbus, htcp⟩

/-- **A session that is over moves one more packet.** In every run, a session that is over
pops at most one more packet or pushes at most one more, and not both. -/
theorem packets_of_over (h₀ : exec (step dev) (start dev m) ls = some s) (hover : s.Over k)
    (h : exec (step dev) s ls' = some t) :
    t.shared.deliveredTo k + cost (step dev) (pushes k) s ls' ≤ s.shared.deliveredTo k + 1 := by
  obtain ⟨r, hk, hstopped, hdead⟩ := stopped_of_over h₀ hover
  obtain ⟨r', _, _, hpops⟩ := popsWithin_exec ⟨r, hk, hstopped, le_rfl⟩ h
  have hpushes := cost_le_of_stopped (fun _ _ _ _ _ H => H.pushed) hk hstopped h
  have hleft : r.vmbus2Tcp.popsLeft + r.tcp2Vmbus.pushesLeft ≤ 1 := by
    rcases hdead with hdead | hdead
    · have hle := r.tcp2Vmbus.pushesLeft_le
      simpa [hdead, Vmbus2TcpThread.popsLeft] using hle
    · have hle := r.vmbus2Tcp.popsLeft_le
      simpa [hdead, Tcp2VmbusThread.pushesLeft] using hle
  omega

/-- It pops the second packet of the session, and pushes none. -/
theorem packets_of_over_stale : ∃ s t, s.Over 0 ∧
    exec (step .defaultRings) s lateThread = some t ∧
    s.shared.deliveredTo 0 = 1 ∧ t.shared.deliveredTo 0 = 2 ∧
    cost (step .defaultRings) (pushes 0) s lateThread = 0 := by
  obtain ⟨m, s, t, hs, ht, hover, _, _, hone, htwo, _⟩ := exec_stale
  have hle := packets_of_over hs hover ht
  rw [hone, htwo] at hle
  exact ⟨s, t, hover, ht, hone, htwo, by omega⟩

/-! ## The packets a session loses -/

/-- The packets that the relay of a session, which may not have been started, may lose. -/
def mayLose (s : ServiceMain) (k : ℕ) : ℕ := s.relays[k]?.elim 1 fun r => r.vmbus2Tcp.mayLose

theorem mayLose_le : s.mayLose k ≤ 1 := by
  rw [mayLose]
  cases s.relays[k]? with
  | none => exact le_rfl
  | some r => exact r.vmbus2Tcp.mayLose_le

theorem pops_add_mayLose (h : step dev s l = some t) :
    pops k s l + t.mayLose k ≤ sends k s l + s.mayLose k := by
  cases hk : s.relays[k]? with
  | none =>
      have hpops : pops k s l = 0 := by
        rw [pops, hk]
        cases l <;> simp [ofVmbus2Tcp]
      have hmay : s.mayLose k = 1 := by rw [mayLose, hk, Option.elim_none]
      have hle : t.mayLose k ≤ 1 := mayLose_le
      omega
  | some r =>
      obtain ⟨r', hk', _, hcases⟩ := relay_step hk h
      simp only [mayLose, hk, hk', Option.elim_some]
      rcases hcases with ⟨throws, rfl, _, hv⟩ | ⟨event, rfl, hsame, _⟩ | ⟨hnot, _, hsame, _⟩
      · simp only [pops, sends, ofVmbus2Tcp_self, hk, Option.elim_some]
        exact Vmbus2TcpThread.takes_add_mayLose hv
      · simp [pops, sends, hsame]
      · simp [pops, sends, hsame, ofVmbus2Tcp_of_ne hnot]

/-- **A session loses at most one packet.** In every run, the packets with a content that
the relay of a session has popped are those it has sent, but for one at most. -/
theorem pops_le_sends (h : exec (step dev) (start dev m) ls = some t) :
    cost (step dev) (pops k) (start dev m) ls ≤
      cost (step dev) (sends k) (start dev m) ls + 1 := by
  obtain ⟨n, _, hle⟩ := cost_add_le (f := pops k) (g := sends k)
    (P := fun n s => s.mayLose k = n)
    (fun n s l t hn h => ⟨t.mayLose k, rfl, hn ▸ pops_add_mayLose h⟩) rfl h
  exact (Nat.le_add_right _ _).trans hle

/-- Of its two packets the session loses one. -/
theorem pops_le_sends_stale : ∃ m,
    cost (step .defaultRings) (pops 0) (start .defaultRings fun _ => 0)
      (relayedSession m ++ lateThread) = 2 ∧
    cost (step .defaultRings) (sends 0) (start .defaultRings fun _ => 0)
      (relayedSession m ++ lateThread) = 1 ∧
    cost (step .defaultRings) (pops 0) (start .defaultRings fun _ => 0)
        (relayedSession m ++ lateThread) ≤
      cost (step .defaultRings) (sends 0) (start .defaultRings fun _ => 0)
        (relayedSession m ++ lateThread) + 1 := by
  obtain ⟨m, s, t, hs, ht, _, _, _, _, _, hpops, hsends⟩ := exec_stale
  exact ⟨m, hpops, hsends, pops_le_sends ((exec_append _ hs).trans ht)⟩

end ServiceMain

end HvGin

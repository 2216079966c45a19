import Opencode.Hfsm.Client

/-!
# The TCP connection

The connection of the example goes through the states of RFC 793, condensed.  What it has
handled since it was last closed is always the beginning of one of six connections, two
ways to open and three ways to close, and each time it is closed by an event one of them
is complete.  The number it acknowledges is the one after that of the SYN it received.  Its
own number is counted by the program itself, between two events, and by nothing else.

## Main definitions

* `TCPState`, `TcpEvent`, `ConnectionInfo` — the states, the events and the data.
* `tcpConnection` — the program.
* `TcpCall`, `tcpPerform` — what is done with it; `runActiveOpen`, `runPassiveOpen`.
* `TCPState.words`, `connections` — what leads to a state, and the complete connections.
* `tcp_sessions` — the sessions and the data after any calls.
-/

namespace Opencode.Hfsm

open Opencode.Lib

/-! ## The program -/

inductive TCPState
  | closed | listen | synSent | synRcvd | established | finWait1 | finWait2 | timeWait
  | closeWait | lastAck
  deriving DecidableEq

inductive TcpEventType
  | passiveOpen | activeOpen | sendSYN | receiveSYN | receiveSYNACK | receiveACK | close
  | receiveFIN | timeout | sendRST
  deriving DecidableEq

inductive TcpEvent
  | passiveOpen
  | activeOpen
  | sendSYN
  | receiveSYN (seqNum : UInt32)
  | receiveSYNACK (seqNum ackNum : UInt32)
  | receiveACK (ackNum : UInt32)
  | close
  | receiveFIN
  | timeout
  | sendRST

def TcpEvent.typeInfo : TcpEvent → TcpEventType
  | passiveOpen => .passiveOpen
  | activeOpen => .activeOpen
  | sendSYN => .sendSYN
  | receiveSYN _ => .receiveSYN
  | receiveSYNACK _ _ => .receiveSYNACK
  | receiveACK _ => .receiveACK
  | close => .close
  | receiveFIN => .receiveFIN
  | timeout => .timeout
  | sendRST => .sendRST

structure ConnectionInfo where
  seqNum : UInt32 := 1000
  ackNum : UInt32 := 0
  retransmitCount : ℤ := 0
  hasData : Bool := false
  deriving DecidableEq

/-- The actions: one that only prints, and the two that note the number of a SYN. -/
inductive TcpAction
  | print
  | receivedSYN
  | receivedSYNACK

namespace TCPState

/-- The value of the enumerator. -/
def id : TCPState → StateId
  | closed => 0
  | listen => 1
  | synSent => 2
  | synRcvd => 3
  | established => 4
  | finWait1 => 5
  | finWait2 => 6
  | timeWait => 7
  | closeWait => 8
  | lastAck => 9

def all : List TCPState :=
  [closed, listen, synSent, synRcvd, established, finWait1, finWait2, timeWait, closeWait, lastAck]

end TCPState

def TcpAction.run : TcpAction → TcpEvent → ConnectionInfo → ConnectionInfo
  | receivedSYN, .receiveSYN seqNum, info => { info with ackNum := seqNum + 1 }
  | receivedSYNACK, .receiveSYNACK seqNum _, info => { info with ackNum := seqNum + 1 }
  | _, _, info => info

/-- The program; its guards are empty. -/
def tcpConnection : Program TCPState TcpEventType TcpEvent Empty TcpAction ConnectionInfo where
  id := TCPState.id
  states := TCPState.all
  initial := .closed
  rules :=
    [{ src := .closed, eventType := .passiveOpen, dst := .listen },
     { src := .closed, eventType := .activeOpen, dst := .synSent, action := some .print },
     { src := .listen, eventType := .receiveSYN, dst := .synRcvd, action := some .receivedSYN },
     { src := .synSent, eventType := .receiveSYNACK, dst := .established,
       action := some .receivedSYNACK },
     { src := .synRcvd, eventType := .receiveACK, dst := .established, action := some .print },
     { src := .established, eventType := .close, dst := .finWait1, action := some .print },
     { src := .established, eventType := .receiveFIN, dst := .closeWait, action := some .print },
     { src := .finWait1, eventType := .receiveACK, dst := .finWait2 },
     { src := .finWait1, eventType := .receiveFIN, dst := .timeWait },
     { src := .finWait2, eventType := .receiveFIN, dst := .timeWait, action := some .print },
     { src := .timeWait, eventType := .timeout, dst := .closed, action := some .print },
     { src := .closeWait, eventType := .close, dst := .lastAck, action := some .print },
     { src := .lastAck, eventType := .receiveACK, dst := .closed, action := some .print }]
  typeInfo := TcpEvent.typeInfo
  guards := fun g _ => nomatch g
  act := TcpAction.run
  observe := fun _ info => info

/-- A call of the engine, or the statement of `run_active_open` between two of them. -/
inductive TcpCall
  | engine (call : Client.Call TcpEvent)
  | countSeq

def TcpCall.isCountSeq : TcpCall → Bool
  | countSeq => true
  | engine _ => false

def tcpPerform (c : Client TcpEventType TcpEvent Empty TcpAction ConnectionInfo) :
    TcpCall → Option EventResult × Client TcpEventType TcpEvent Empty TcpAction ConnectionInfo
  | .engine call => tcpConnection.perform c call
  | .countSeq => (none, { c with data := { c.data with seqNum := c.data.seqNum + 1 } })

def runActiveOpen : List TcpCall :=
  [.engine (.handle .activeOpen), .engine (.handle (.receiveSYNACK 2000 1001)), .countSeq,
   .engine (.handle (.receiveACK 2001)), .engine (.handle .close),
   .engine (.handle (.receiveACK 2002)), .engine (.handle .receiveFIN),
   .engine (.handle .timeout)]

def runPassiveOpen : List TcpCall :=
  [.engine .reset, .engine (.handle .passiveOpen), .engine (.handle (.receiveSYN 5000)),
   .engine (.handle (.receiveACK 5001)), .engine (.handle .receiveFIN),
   .engine (.handle .close), .engine (.handle (.receiveACK 5002))]

theorem tcpConnection_proper : tcpConnection.Proper where
  complete s := by cases s <;> decide
  injective s t h := by
    revert h
    cases s <;> cases t <;> decide
  valid s := by cases s <;> decide

/-! ## The connections -/

/-- The two ways to open. -/
def openings : List (List TcpEventType) :=
  [[.passiveOpen, .receiveSYN, .receiveACK], [.activeOpen, .receiveSYNACK]]

/-- The three ways to close. -/
def closings : List (List TcpEventType) :=
  [[.close, .receiveACK, .receiveFIN, .timeout], [.close, .receiveFIN, .timeout],
   [.receiveFIN, .close, .receiveACK]]

/-- The complete connections. -/
def connections : List (List TcpEventType) :=
  openings.flatMap fun opening => closings.map (opening ++ ·)

/-- What leads from an open connection to a state. -/
def TCPState.closing : TCPState → List (List TcpEventType)
  | established => [[]]
  | finWait1 => [[.close]]
  | finWait2 => [[.close, .receiveACK]]
  | timeWait => [[.close, .receiveACK, .receiveFIN], [.close, .receiveFIN]]
  | closeWait => [[.receiveFIN]]
  | lastAck => [[.receiveFIN, .close]]
  | _ => []

/-- What leads from the closed connection to a state. -/
def TCPState.words : TCPState → List (List TcpEventType)
  | closed => [[]]
  | listen => [[.passiveOpen]]
  | synSent => [[.activeOpen]]
  | synRcvd => [[.passiveOpen, .receiveSYN]]
  | s => openings.flatMap fun opening => s.closing.map (opening ++ ·)

/-- A word that leads to a state begins a connection. -/
theorem words_prefix (s : TCPState) : ∀ w ∈ s.words, ∃ v ∈ connections, w <+: v := by
  cases s <;> decide

/-- A rule carries a word that leads to its source to one that leads to its target, or to
a complete connection. -/
theorem words_rule : ∀ r ∈ tcpConnection.rules, ∀ w ∈ r.src.words,
    if r.dst = .closed then w ++ [r.eventType] ∈ connections
    else w ++ [r.eventType] ∈ r.dst.words := by
  decide

/-! ## The number acknowledged -/

/-- The number of a SYN the connection handles. -/
def TcpEvent.synNumber : TcpEvent → Option UInt32
  | receiveSYN seqNum => some seqNum
  | receiveSYNACK seqNum _ => some seqNum
  | _ => none

/-- The connection acknowledges the SYN of the session. -/
def Acknowledges (info : ConnectionInfo) (session : List TcpEvent) : Prop :=
  ∀ n ∈ session.filterMap TcpEvent.synNumber, info.ackNum = n + 1

/-- A session handles at most one SYN before a rule for one. -/
theorem no_syn_before : ∀ r ∈ tcpConnection.rules,
    r.eventType = .receiveSYN ∨ r.eventType = .receiveSYNACK →
      ∀ w ∈ r.src.words, .receiveSYN ∉ w ∧ .receiveSYNACK ∉ w := by
  decide

theorem acknowledges_nil (info : ConnectionInfo) : Acknowledges info [] := by
  intro n hn
  cases hn

theorem filterMap_synNumber_of_words {session : List TcpEvent}
    (h : .receiveSYN ∉ session.map TcpEvent.typeInfo ∧
      .receiveSYNACK ∉ session.map TcpEvent.typeInfo) :
    session.filterMap TcpEvent.synNumber = [] := by
  rw [List.filterMap_eq_nil_iff]
  intro event hevent
  cases event with
  | receiveSYN n => exact absurd (List.mem_map_of_mem (f := TcpEvent.typeInfo) hevent) h.1
  | receiveSYNACK n a => exact absurd (List.mem_map_of_mem (f := TcpEvent.typeInfo) hevent) h.2
  | _ => rfl

/-- A rule for a SYN notes its number, and the others leave the data alone. -/
theorem fire_eq {r : Rule TCPState TcpEventType Empty TcpAction} (hr : r ∈ tcpConnection.rules)
    {raw : TcpEvent} (happlies : tcpConnection.Applies r raw) (info : ConnectionInfo) :
    tcpConnection.fire r raw info =
      (raw.synNumber.elim info fun n => { info with ackNum := n + 1 }) := by
  have htype := happlies.1
  fin_cases hr <;> cases raw <;> first | rfl | cases htype

/-- A rule keeps the number acknowledged right. -/
theorem acknowledges_fire {r : Rule TCPState TcpEventType Empty TcpAction}
    (hr : r ∈ tcpConnection.rules) {raw : TcpEvent} (happlies : tcpConnection.Applies r raw)
    {info : ConnectionInfo} {w : List TcpEvent} (hw : w.map TcpEvent.typeInfo ∈ r.src.words)
    (hack : Acknowledges info w) :
    Acknowledges (tcpConnection.fire r raw info) (w ++ [raw]) := by
  intro n hn
  rw [List.filterMap_append, List.mem_append] at hn
  rw [fire_eq hr happlies]
  cases hsyn : raw.synNumber with
  | none =>
      refine hack n (hn.resolve_right ?_)
      simp [hsyn]
  | some m =>
      -- there was no SYN in the session before
      have hnone : w.filterMap TcpEvent.synNumber = [] := by
        refine filterMap_synNumber_of_words (no_syn_before r hr ?_ _ hw)
        rw [happlies.1]
        cases raw <;> simp_all [TcpEvent.synNumber, tcpConnection, TcpEvent.typeInfo]
      rw [hnone] at hn
      have hnm : n = m := by simpa [hsyn] using hn
      rw [hnm]
      rfl

theorem seqNum_fire {r : Rule TCPState TcpEventType Empty TcpAction}
    (hr : r ∈ tcpConnection.rules) {raw : TcpEvent} (happlies : tcpConnection.Applies r raw)
    (info : ConnectionInfo) : (tcpConnection.fire r raw info).seqNum = info.seqNum := by
  rw [fire_eq hr happlies]
  cases raw.synNumber <;> rfl

/-- What is known of the connection in a state, after `n` increments of its own number. -/
structure Connected (n : ℕ) (s : TCPState) (info : ConnectionInfo) (session : List TcpEvent)
    (sessions : List (List TcpEvent)) : Prop where
  leads : session.map TcpEvent.typeInfo ∈ s.words
  complete : ∀ v ∈ sessions, v.map TcpEvent.typeInfo ∈ connections
  acknowledges : Acknowledges info session
  seqNum : info.seqNum = 1000 + UInt32.ofNat n

/-- The engine does not count. -/
theorem connected_keeps (n : ℕ) :
    tcpConnection.Keeps fun s info w ws _ => Connected n s info w ws := by
  have hkeeps := Program.keeps_of_words (p := tcpConnection)
    (I := fun _ info w _ _ => Acknowledges info w ∧ info.seqNum = 1000 + UInt32.ofNat n)
    TCPState.words connections (by decide) words_rule
    (by
      intro r hr info w ws h raw hw hinfo happlies
      have hseq := (seqNum_fire hr happlies info).trans hinfo.2
      split
      · exact ⟨acknowledges_nil _, hseq⟩
      · exact ⟨acknowledges_fire hr happlies hw hinfo.1, hseq⟩)
    (by
      intro s info w ws h hinfo
      have hdata : tcpConnection.restart s info = info := ite_self info
      rw [hdata]
      exact ⟨acknowledges_nil _, hinfo.2⟩)
  have hiff : ∀ s info w ws, Connected n s info w ws ↔
      w.map TcpEvent.typeInfo ∈ s.words ∧ (∀ v ∈ ws, v.map TcpEvent.typeInfo ∈ connections) ∧
        Acknowledges info w ∧ info.seqNum = 1000 + UInt32.ofNat n :=
    fun _ _ _ _ => ⟨fun h => ⟨h.1, h.2, h.3, h.4⟩, fun ⟨h₁, h₂, h₃, h₄⟩ => ⟨h₁, h₂, h₃, h₄⟩⟩
  simp only [hiff]
  exact hkeeps

theorem connected_after (calls : List TcpCall) :
    tcpConnection.Asserts
      (fun s info w ws _ => Connected (calls.countP TcpCall.isCountSeq) s info w ws)
      (after tcpPerform (tcpConnection.start {}) calls) := by
  induction calls using List.reverseRecOn with
  | nil =>
      exact Program.asserts_start tcpConnection_proper
        ⟨by decide, by simp, acknowledges_nil _, rfl⟩
  | append_singleton calls call ih =>
      rw [after_concat, List.countP_append, List.countP_singleton]
      cases call with
      | engine call => exact ih.perform tcpConnection_proper (connected_keeps _) call
      | countSeq =>
          refine ih.write fun s hs => ⟨hs.leads, hs.complete, hs.acknowledges, ?_⟩
          simp only [hs.seqNum, TcpCall.isCountSeq, if_true, UInt32.ofNat_add, UInt32.add_assoc]
          rfl

/-- **The sessions of the connection.**  After any calls the connection is in one of its
states, what it handled since it was last closed leads there and begins one of the six
connections, and every time it was closed by an event one of them was complete.  It
acknowledges the SYN of the session, and its own number is the initial one and the
increments, modulo the word. -/
theorem tcp_sessions (calls : List TcpCall) :
    let c := after tcpPerform (tcpConnection.start {}) calls
    ∃ s : TCPState, c.engine.currentState = s.id ∧
      c.session.map TcpEvent.typeInfo ∈ s.words ∧
      (∃ v ∈ connections, c.session.map TcpEvent.typeInfo <+: v) ∧
      (∀ w ∈ c.sessions, w.map TcpEvent.typeInfo ∈ connections) ∧
      Acknowledges c.data c.session ∧
      c.data.seqNum = 1000 + UInt32.ofNat (calls.countP TcpCall.isCountSeq) := by
  intro c
  obtain ⟨s, hs, hc⟩ := (connected_after calls).currentState
  exact ⟨s, hs, hc.leads, words_prefix s _ hc.leads, hc.complete, hc.acknowledges, hc.seqNum⟩

/-- The program runs the one scenario, then the other. -/
example :
    let c := after tcpPerform (tcpConnection.start {}) (runActiveOpen ++ runPassiveOpen)
    c.sessions.length = 2 ∧ c.data.seqNum = 1001 ∧ c.data.ackNum = 5001 := by
  decide +kernel

end Opencode.Hfsm

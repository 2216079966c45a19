import Opencode.Hfsm.Client
import Opencode.Hfsm.History

/-!
# Programs with sub-states

Two of the examples enumerate the sub-states of a composite state, and give them rules
and callbacks, but the engine has no hierarchy and no rule leads into them.  The
protocol stack stays among its three top-level states, so it counts no traffic; the
device is off or on, keeps the metrics it started with, and piles up the same entry of
the history each time it is switched on.

## Main definitions

* `ConnState`, `ProtocolStats`, `RegionManager`, `protocolStack` — the protocol stack.
* `DeviceState`, `DeviceMetrics`, `deviceManager` — the device.
* `protocol_stays_outside`, `device_stays_outside` — where they stay, whatever they are
  called with.
-/

namespace Opencode.Hfsm

open Opencode.Lib

/-! ## The protocol stack -/

inductive ConnState
  | disconnected | connecting | connected | authenticating | idle | streaming
  deriving DecidableEq

namespace ConnState

/-- The value of the enumerator. -/
def id : ConnState → StateId
  | disconnected => 0
  | connecting => 1
  | connected => 2
  | authenticating => 3
  | idle => 4
  | streaming => 5

def all : List ConnState := [disconnected, connecting, connected, authenticating, idle, streaming]

end ConnState

inductive ConnEventType
  | connectRequest | disconnectRequest | connectionTimeout | connectionEstablished
  | connectionLost | authenticate | authSuccess | authFailure | dataReceived | dataSent
  | streamStart | streamStop
  deriving DecidableEq

/-- The events, with the contents that reach the statistics. -/
inductive ConnEvent
  | connectRequest | disconnectRequest | connectionTimeout | connectionEstablished
  | connectionLost | authenticate | authSuccess | authFailure
  | dataReceived (len : ℤ)
  | dataSent (bytes : ℤ)
  | streamStart | streamStop

def ConnEvent.typeInfo : ConnEvent → ConnEventType
  | connectRequest => .connectRequest
  | disconnectRequest => .disconnectRequest
  | connectionTimeout => .connectionTimeout
  | connectionEstablished => .connectionEstablished
  | connectionLost => .connectionLost
  | authenticate => .authenticate
  | authSuccess => .authSuccess
  | authFailure => .authFailure
  | dataReceived _ => .dataReceived
  | dataSent _ => .dataSent
  | streamStart => .streamStart
  | streamStop => .streamStop

structure ProtocolStats where
  bytesSent : ℤ := 0
  bytesReceived : ℤ := 0
  packetsSent : ℤ := 0
  packetsRecv : ℤ := 0
  authFailures : ℤ := 0
  reconnects : ℤ := 0
  deriving DecidableEq

structure RegionState where
  parentId : StateId := invalidState
  activeChild : StateId := invalidState
  initialChild : StateId := invalidState
  history : StateId := invalidState
  isActive : Bool := false
  deriving DecidableEq

structure RegionManager where
  regions : AList fun _ : StateId => RegionState := ∅

def RegionManager.activateRegion (m : RegionManager) (parentId : StateId) : RegionManager :=
  match m.regions.lookup parentId with
  | none => m
  | some region =>
      ⟨m.regions.insert parentId
        { region with
          isActive := true
          activeChild :=
            if region.activeChild = invalidState then region.initialChild
            else region.activeChild }⟩

/-- What the callbacks of the stack work on. -/
structure ProtocolData where
  stats : ProtocolStats := {}
  regions : RegionManager := {}

/-- The actions and entry callbacks; `print` stands for those that only log. -/
inductive ConnAction
  | print
  | activateConnected
  | reconnect
  | authFailed
  | receive
  | send

def ConnAction.run : ConnAction → ConnEvent → ProtocolData → ProtocolData
  | reconnect, _, x => { x with stats.reconnects := x.stats.reconnects + 1 }
  | authFailed, _, x => { x with stats.authFailures := x.stats.authFailures + 1 }
  | receive, .dataReceived len, x =>
      { x with
        stats.bytesReceived := x.stats.bytesReceived + len
        stats.packetsRecv := x.stats.packetsRecv + 1 }
  | send, .dataSent bytes, x =>
      { x with
        stats.bytesSent := x.stats.bytesSent + bytes
        stats.packetsSent := x.stats.packetsSent + 1 }
  | _, _, x => x

def ConnAction.observe : ConnAction → ProtocolData → ProtocolData
  | activateConnected, x => { x with regions := x.regions.activateRegion ConnState.connected.id }
  | _, x => x

/-- The program; its guards are empty. -/
def protocolStack : Program ConnState ConnEventType ConnEvent Empty ConnAction ProtocolData where
  id := ConnState.id
  states := ConnState.all
  initial := .disconnected
  onEntry s := some (if s = .connected then .activateConnected else .print)
  rules :=
    [{ src := .disconnected, eventType := .connectRequest, dst := .connecting,
       action := some .print },
     { src := .disconnected, eventType := .connectionLost, dst := .connecting,
       action := some .reconnect },
     { src := .connecting, eventType := .connectionEstablished, dst := .connected },
     { src := .connecting, eventType := .connectionTimeout, dst := .disconnected,
       action := some .print },
     { src := .connected, eventType := .disconnectRequest, dst := .disconnected,
       action := some .print },
     { src := .connected, eventType := .connectionLost, dst := .disconnected,
       action := some .print },
     { src := .authenticating, eventType := .authSuccess, dst := .idle, action := some .print },
     { src := .authenticating, eventType := .authFailure, dst := .disconnected,
       action := some .authFailed },
     { src := .idle, eventType := .streamStart, dst := .streaming },
     { src := .streaming, eventType := .streamStop, dst := .idle },
     { src := .idle, eventType := .dataReceived, dst := .idle, action := some .receive },
     { src := .streaming, eventType := .dataReceived, dst := .streaming, action := some .receive },
     { src := .streaming, eventType := .dataSent, dst := .streaming, action := some .send }]
  typeInfo := ConnEvent.typeInfo
  guards := fun g _ => nomatch g
  act := ConnAction.run
  observe := ConnAction.observe

theorem protocolStack_proper : protocolStack.Proper where
  complete s := by cases s <;> decide
  injective s t h := by
    revert h
    cases s <;> cases t <;> decide
  valid s := by cases s <;> decide

/-- What leads to a state from the disconnected one. -/
def ConnState.words : ConnState → List (List ConnEventType)
  | disconnected => [[]]
  | connecting => [[.connectRequest], [.connectionLost]]
  | connected =>
      [[.connectRequest, .connectionEstablished], [.connectionLost, .connectionEstablished]]
  | _ => []

/-- What leads back to the disconnected state. -/
def connAttempts : List (List ConnEventType) :=
  [ConnEventType.connectRequest, .connectionLost].flatMap fun first =>
    [[first, .connectionTimeout], [first, .connectionEstablished, .disconnectRequest],
     [first, .connectionEstablished, .connectionLost]]

theorem connWords_rule : ∀ r ∈ protocolStack.rules, ∀ w ∈ r.src.words,
    if r.dst = .disconnected then w ++ [r.eventType] ∈ connAttempts
    else w ++ [r.eventType] ∈ r.dst.words := by
  decide

/-- Only a reconnection is counted. -/
def Idle (x : ProtocolData) : Prop :=
  x.stats = { reconnects := x.stats.reconnects } ∧ x.regions.regions = ∅

/-- A rule that can be reached counts no more than a reconnection. -/
theorem idle_fire {r : Rule ConnState ConnEventType Empty ConnAction}
    (hr : r ∈ protocolStack.rules) (hsrc : r.src.words ≠ []) (raw : ConnEvent)
    {x : ProtocolData} (hx : Idle x) : Idle (protocolStack.fire r raw x) := by
  obtain ⟨stats, regions⟩ := x
  obtain ⟨hstats, hregions⟩ := hx
  simp only at hstats hregions
  obtain ⟨regions⟩ := regions
  obtain rfl : regions = ∅ := hregions
  rw [hstats]
  fin_cases hr <;> first | exact absurd rfl hsrc | exact ⟨rfl, rfl⟩

/-- **The sub-states of a connection are never entered.**  After any calls the stack is
disconnected, connecting or connected, and has counted nothing but reconnections: no
traffic and no failed authentication, whatever was received.  Every way back to the
disconnected state is an attempt that times out or a connection that ends. -/
theorem protocol_stays_outside (calls : List (Client.Call ConnEvent)) :
    let c := after protocolStack.perform (protocolStack.start {}) calls
    ∃ s : ConnState, c.engine.currentState = s.id ∧
      s ∈ [ConnState.disconnected, .connecting, .connected] ∧
      c.session.map ConnEvent.typeInfo ∈ s.words ∧
      (∀ w ∈ c.sessions, w.map ConnEvent.typeInfo ∈ connAttempts) ∧
      c.data.stats = { reconnects := c.data.stats.reconnects } ∧
      c.data.regions.regions = ∅ := by
  intro c
  have hkeeps : protocolStack.Keeps _ := Program.keeps_of_words
    (I := fun _ x _ _ _ => Idle x) ConnState.words connAttempts (by decide) connWords_rule
    (by
      intro r hr x w ws h raw hw hx _
      have hfire := idle_fire hr (List.ne_nil_of_mem hw) raw hx
      split <;> exact hfire)
    (by
      intro s x w ws h hx
      have hdata : protocolStack.restart s x = x := ite_self x
      rwa [hdata])
  obtain ⟨s, hs, hw, hws, hx⟩ := Program.invariant protocolStack_proper {}
    ⟨by decide, by simp, rfl, rfl⟩ hkeeps calls
  refine ⟨s, hs, ?_, hw, hws, hx.1, hx.2⟩
  cases s <;> first | decide | cases hw

/-! ## The device -/

inductive DeviceState
  | poweredOff | poweredOn | active | standby | fault | firmwareUpdate
  | activeIdle | running | busy
  | minorFault | majorFault | recovering
  | fwDownloading | fwVerifying | fwInstalling
  deriving DecidableEq

namespace DeviceState

/-- The value of the enumerator. -/
def id : DeviceState → StateId
  | poweredOff => 0
  | poweredOn => 1
  | active => 2
  | standby => 3
  | fault => 4
  | firmwareUpdate => 5
  | activeIdle => 6
  | running => 7
  | busy => 8
  | minorFault => 9
  | majorFault => 10
  | recovering => 11
  | fwDownloading => 12
  | fwVerifying => 13
  | fwInstalling => 14

def all : List DeviceState :=
  [poweredOff, poweredOn, active, standby, fault, firmwareUpdate, activeIdle, running, busy,
   minorFault, majorFault, recovering, fwDownloading, fwVerifying, fwInstalling]

end DeviceState

inductive DeviceEventType
  | powerOn | powerOff | standby | wakeUp | heartbeat | temperatureReading | overTemperature
  | normalTemperature | faultDetected | faultCleared | recoveryInitiated | recoveryComplete
  | startFirmwareUpdate | fwDownloadProgress | fwDownloadComplete | fwVerifyFailure
  | fwUpdateComplete | fwUpdateFailed
  deriving DecidableEq

/-- The events, with the contents that reach the metrics. -/
inductive DeviceEvent (F : Type)
  | powerOn | powerOff | standby | wakeUp | heartbeat | temperatureReading
  | overTemperature (temp : F)
  | normalTemperature | faultDetected | faultCleared | recoveryInitiated | recoveryComplete
  | startFirmwareUpdate | fwDownloadProgress | fwDownloadComplete | fwVerifyFailure
  | fwUpdateComplete | fwUpdateFailed

def DeviceEvent.typeInfo {F : Type} : DeviceEvent F → DeviceEventType
  | powerOn => .powerOn
  | powerOff => .powerOff
  | standby => .standby
  | wakeUp => .wakeUp
  | heartbeat => .heartbeat
  | temperatureReading => .temperatureReading
  | overTemperature _ => .overTemperature
  | normalTemperature => .normalTemperature
  | faultDetected => .faultDetected
  | faultCleared => .faultCleared
  | recoveryInitiated => .recoveryInitiated
  | recoveryComplete => .recoveryComplete
  | startFirmwareUpdate => .startFirmwareUpdate
  | fwDownloadProgress => .fwDownloadProgress
  | fwDownloadComplete => .fwDownloadComplete
  | fwVerifyFailure => .fwVerifyFailure
  | fwUpdateComplete => .fwUpdateComplete
  | fwUpdateFailed => .fwUpdateFailed

structure DeviceMetrics (F : Type) where
  uptimeSeconds : UInt64 := 0
  faultCount : ℤ := 0
  recoveryCount : ℤ := 0
  fwUpdateCount : ℤ := 0
  maxTemperature : F
  currentTemperature : F
  lastHeartbeat : UInt32 := 0
  totalTransitions : ℤ := 0

/-- What the callbacks of the device work on. -/
structure DeviceData (F : Type) where
  metrics : DeviceMetrics F
  history : HistoryManager

/-- The actions and entry callbacks; `print` stands for those that only log. -/
inductive DeviceAction
  | print
  | recordActiveIdle
  | recordStandby
  | countFault
  | countRecovery
  | countTransition
  | noteTemperature
  | countUpdate

variable {F : Type}

def DeviceAction.run : DeviceAction → DeviceEvent F → DeviceData F → DeviceData F
  | countTransition, _, x =>
      { x with metrics.totalTransitions := x.metrics.totalTransitions + 1 }
  | noteTemperature, .overTemperature temp, x => { x with metrics.maxTemperature := temp }
  | countUpdate, _, x => { x with metrics.fwUpdateCount := x.metrics.fwUpdateCount + 1 }
  | _, _, x => x

/-- The current state that is recorded at the entry of standby is standby. -/
def DeviceAction.observe : DeviceAction → DeviceData F → DeviceData F
  | recordActiveIdle, x =>
      { x with history := x.history.record DeviceState.active.id DeviceState.activeIdle.id }
  | recordStandby, x =>
      { x with history := x.history.record DeviceState.active.id DeviceState.standby.id }
  | countFault, x => { x with metrics.faultCount := x.metrics.faultCount + 1 }
  | countRecovery, x => { x with metrics.recoveryCount := x.metrics.recoveryCount + 1 }
  | _, x => x

def DeviceState.entryAction : DeviceState → Option DeviceAction
  | poweredOn => some .recordActiveIdle
  | standby => some .recordStandby
  | minorFault | majorFault => some .countFault
  | recovering => some .countRecovery
  | poweredOff | activeIdle | running | busy | fwDownloading | fwVerifying | fwInstalling =>
      some .print
  | active | fault | firmwareUpdate => none

/-- The program; its guards are empty. -/
def deviceManager (F : Type) :
    Program DeviceState DeviceEventType (DeviceEvent F) Empty DeviceAction (DeviceData F) where
  id := DeviceState.id
  states := DeviceState.all
  initial := .poweredOff
  onEntry := DeviceState.entryAction
  onExit s := if s = .busy then some .print else none
  rules :=
    [{ src := .poweredOff, eventType := .powerOn, dst := .poweredOn },
     { src := .poweredOn, eventType := .powerOff, dst := .poweredOff },
     { src := .activeIdle, eventType := .standby, dst := .standby },
     { src := .standby, eventType := .wakeUp, dst := .activeIdle },
     { src := .activeIdle, eventType := .heartbeat, dst := .running,
       action := some .countTransition },
     { src := .running, eventType := .heartbeat, dst := .busy },
     { src := .busy, eventType := .heartbeat, dst := .activeIdle },
     { src := .activeIdle, eventType := .overTemperature, dst := .minorFault,
       action := some .noteTemperature },
     { src := .running, eventType := .overTemperature, dst := .minorFault,
       action := some .noteTemperature },
     { src := .busy, eventType := .overTemperature, dst := .minorFault,
       action := some .noteTemperature },
     { src := .minorFault, eventType := .recoveryInitiated, dst := .recovering },
     { src := .majorFault, eventType := .recoveryInitiated, dst := .recovering },
     { src := .minorFault, eventType := .normalTemperature, dst := .activeIdle,
       action := some .print },
     { src := .recovering, eventType := .recoveryComplete, dst := .activeIdle,
       action := some .print },
     { src := .recovering, eventType := .faultDetected, dst := .majorFault,
       action := some .print },
     { src := .minorFault, eventType := .faultDetected, dst := .majorFault,
       action := some .print },
     { src := .majorFault, eventType := .powerOff, dst := .poweredOff, action := some .print },
     { src := .activeIdle, eventType := .startFirmwareUpdate, dst := .fwDownloading,
       action := some .countUpdate },
     { src := .fwDownloading, eventType := .fwDownloadComplete, dst := .fwVerifying,
       action := some .print },
     { src := .fwVerifying, eventType := .fwUpdateComplete, dst := .fwInstalling,
       action := some .print },
     { src := .fwVerifying, eventType := .fwVerifyFailure, dst := .activeIdle,
       action := some .print },
     { src := .fwInstalling, eventType := .fwUpdateComplete, dst := .activeIdle,
       action := some .print },
     { src := .fwInstalling, eventType := .fwUpdateFailed, dst := .majorFault,
       action := some .print }]
  typeInfo := DeviceEvent.typeInfo
  guards := fun g _ => nomatch g
  act := DeviceAction.run
  observe := DeviceAction.observe

/-- The data after the constructor, with the metrics given. -/
def DeviceData.init (metrics : DeviceMetrics F) : DeviceData F where
  metrics := metrics
  history := ({} : HistoryManager)
    |>.configure DeviceState.active.id .deep
    |>.configure DeviceState.fault.id .shallow

theorem deviceManager_proper : (deviceManager F).Proper where
  complete s := by cases s <;> simp [deviceManager, DeviceState.all]
  injective s t h := by
    have hid : ∀ s t : DeviceState, s.id = t.id → s = t := by
      intro s t
      cases s <;> cases t <;> decide
    exact hid s t h
  valid s := by cases s <;> simp only [deviceManager, DeviceState.id] <;> decide

def DeviceState.words : DeviceState → List (List DeviceEventType)
  | poweredOff => [[]]
  | poweredOn => [[.powerOn]]
  | _ => []

theorem deviceWords_rule : ∀ r ∈ (deviceManager F).rules, ∀ w ∈ r.src.words,
    if r.dst = .poweredOff then w ++ [r.eventType] ∈ [[DeviceEventType.powerOn, .powerOff]]
    else w ++ [r.eventType] ∈ r.dst.words := by
  intro r hr
  fin_cases hr <;> simp [DeviceState.words]

/-- The entry of the history for the active states after `k` times it was recorded. -/
def activeHistory (k : ℕ) : HistoryEntry where
  stateId := DeviceState.active.id
  mode := .deep
  lastActive := if k = 0 then invalidState else DeviceState.activeIdle.id
  lastActiveStack := List.replicate k DeviceState.activeIdle.id

theorem activeHistory_record (k : ℕ) :
    (activeHistory k).record DeviceState.activeIdle.id = activeHistory (k + 1) := by
  simp [activeHistory, HistoryEntry.record, List.replicate_succ']

/-- How often the device was switched on. -/
def switchOns (handled : List (DeviceEvent F)) : ℕ :=
  (handled.map DeviceEvent.typeInfo).count .powerOn

theorem switchOns_concat (handled : List (DeviceEvent F)) (raw : DeviceEvent F) :
    switchOns (handled ++ [raw]) =
      switchOns handled + if raw.typeInfo = .powerOn then 1 else 0 := by
  rw [switchOns, List.map_append, List.count_append, List.map_singleton, List.count_singleton,
    switchOns]
  simp only [beq_iff_eq]

/-- The device keeps its metrics and was switched on `n` times. -/
def OnlySwitched (metrics : DeviceMetrics F) (n : ℕ) (x : DeviceData F) : Prop :=
  x.metrics = metrics ∧
    x.history.history.lookup DeviceState.active.id = some (activeHistory n)

theorem onlySwitched_record {metrics : DeviceMetrics F} {n : ℕ} {x : DeviceData F}
    (h : OnlySwitched metrics n x) :
    OnlySwitched metrics (n + 1) (DeviceAction.recordActiveIdle.observe x) := by
  obtain ⟨hmetrics, hlookup⟩ := h
  refine ⟨hmetrics, ?_⟩
  simp only [DeviceAction.observe, HistoryManager.record, hlookup, AList.lookup_insert,
    activeHistory_record]

/-- Only the rules of the power switch start where an event leads. -/
theorem switch_cases {r : Rule DeviceState DeviceEventType Empty DeviceAction}
    (hr : r ∈ (deviceManager F).rules) (hsrc : r.src.words ≠ []) :
    r = { src := .poweredOff, eventType := .powerOn, dst := .poweredOn } ∨
      r = { src := .poweredOn, eventType := .powerOff, dst := .poweredOff } := by
  fin_cases hr <;> first | exact .inl rfl | exact .inr rfl | exact absurd rfl hsrc

theorem onlySwitched_restart {metrics : DeviceMetrics F} {n : ℕ} {x : DeviceData F}
    (h : OnlySwitched metrics n x) (s : DeviceState) :
    OnlySwitched metrics n ((deviceManager F).restart s x) := by
  cases s <;> exact h

/-- What is known of the device in a state. -/
structure Outside (metrics : DeviceMetrics F) (s : DeviceState) (x : DeviceData F)
    (sessions : List (List (DeviceEvent F))) (handled : List (DeviceEvent F)) : Prop where
  reached : s.words ≠ []
  switched : OnlySwitched metrics (switchOns handled) x
  completed : sessions.length + (if s = .poweredOn then 1 else 0) ≤ switchOns handled

theorem Outside.fire {metrics : DeviceMetrics F}
    {r : Rule DeviceState DeviceEventType Empty DeviceAction} (hr : r ∈ (deviceManager F).rules)
    {raw : DeviceEvent F} (happlies : (deviceManager F).Applies r raw) {x : DeviceData F}
    {w : List (DeviceEvent F)} {ws : List (List (DeviceEvent F))} {h : List (DeviceEvent F)}
    (hx : Outside metrics r.src x ws h) :
    if r.dst = .poweredOff then
      Outside metrics r.dst ((deviceManager F).fire r raw x) (ws ++ [w ++ [raw]]) (h ++ [raw])
    else Outside metrics r.dst ((deviceManager F).fire r raw x) ws (h ++ [raw]) := by
  have htype := happlies.1
  have hcompleted := hx.completed
  obtain rfl | rfl := switch_cases hr hx.reached
  · have hcount : switchOns (h ++ [raw]) = switchOns h + 1 := by
      have hon : raw.typeInfo = .powerOn := htype.symm
      rw [switchOns_concat, if_pos hon]
    refine ⟨List.cons_ne_nil _ _, ?_, ?_⟩
    · rw [hcount]
      exact onlySwitched_record hx.switched
    · rw [hcount]
      simpa using hcompleted
  · have hcount : switchOns (h ++ [raw]) = switchOns h := by
      have hoff : raw.typeInfo = .powerOff := htype.symm
      rw [switchOns_concat, hoff]
      rfl
    have hdata : (deviceManager F).fire
        { src := .poweredOn, eventType := .powerOff, dst := .poweredOff } raw x = x := rfl
    refine ⟨List.cons_ne_nil _ _, ?_, ?_⟩
    · rw [hcount, hdata]
      exact hx.switched
    · rw [hcount]
      simpa using hcompleted

theorem Outside.restart {metrics : DeviceMetrics F} {s : DeviceState} {x : DeviceData F}
    {ws : List (List (DeviceEvent F))} {h : List (DeviceEvent F)}
    (hx : Outside metrics s x ws h) :
    Outside metrics .poweredOff ((deviceManager F).restart s x) ws h := by
  have hcompleted : ws.length ≤ switchOns h :=
    le_trans (Nat.le_add_right _ _) hx.completed
  exact ⟨List.cons_ne_nil _ _, onlySwitched_restart hx.switched s, hcompleted⟩

/-- **The sub-states of a device are never entered.**  After any calls the device is off or
on, whatever temperatures, faults and updates it was told of, and its metrics are those it
started with.  Every completed session switches it on and off again, and the stack of the
deep history holds one copy of the same state for each time it was switched on. -/
theorem device_stays_outside (metrics : DeviceMetrics F)
    (calls : List (Client.Call (DeviceEvent F))) :
    let c := after (deviceManager F).perform ((deviceManager F).start (.init metrics)) calls
    ∃ s : DeviceState, c.engine.currentState = s.id ∧ s ∈ [DeviceState.poweredOff, .poweredOn] ∧
      (∀ w ∈ c.sessions, w.map DeviceEvent.typeInfo = [.powerOn, .powerOff]) ∧
      c.data.metrics = metrics ∧ c.sessions.length ≤ switchOns c.handled ∧
      c.data.history.history.lookup DeviceState.active.id =
        some (activeHistory (switchOns c.handled)) := by
  intro c
  have hkeeps : (deviceManager F).Keeps _ := Program.keeps_of_words
    (I := fun s x _ ws h => Outside metrics s x ws h) DeviceState.words
    [[.powerOn, .powerOff]] (by simp [deviceManager, DeviceState.words]) deviceWords_rule
    (fun r hr x w ws h raw _ hx happlies => hx.fire hr happlies)
    (fun s x w ws h hx => hx.restart)
  obtain ⟨s, hs, -, hws, hx⟩ := Program.invariant deviceManager_proper (DeviceData.init metrics)
    ⟨by simp [deviceManager, DeviceState.words], by simp, List.cons_ne_nil _ _, ⟨rfl, rfl⟩, le_rfl⟩
    hkeeps calls
  refine ⟨s, hs, ?_, fun w hw => List.mem_singleton.mp (hws w hw), hx.switched.1,
    le_trans (Nat.le_add_right _ _) hx.completed, hx.switched.2⟩
  have hreached := hx.reached
  cases s <;> first | decide | exact absurd rfl hreached

end Opencode.Hfsm

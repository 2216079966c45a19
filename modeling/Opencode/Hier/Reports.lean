import Opencode.Hier.Line

/-!
# Reports keep the layers in agreement

A node decides from flags that its children reported, and a report is only delivered when
its signature changed.  Two facts make this sound.  `Mirrored` holds at every moment, also
in the middle of a command: what a parent knows about a child, and the signature the child
compares with, both belong to the last report the child delivered.  `Settled` holds of a
node whenever no command is at work on it: its flags are recomputed, and its last report
says what is the case.

Inside a command the nodes on the way down are not settled yet; the set of these nodes
runs through the lemmas.  `recompute_spec` is the one induction over the way up, and from
it every command refines the command of the abstract line.

## Main definitions

* `reports` — what a node delivered so far.
* `Mirrored`, `Settled`, `Good` — the invariant.
* `Plant.line` — the abstraction.
* `exec_refines` — the refinement.
-/

namespace Opencode.Hier

open Opencode.Lib

/-! ## The log -/

/-- The report of the node in the effect, if it is one. -/
def Effect.reportOf (k : CoreId) : Effect → Option ProcessReport
  | .report r => if r.origin = k then some r else none
  | _ => none

def Effect.event? : Effect → Option DomainEvent
  | .event e => some e
  | _ => none

/-- The reports the node delivered, in order. -/
def reports (log : List Effect) (k : CoreId) : List ProcessReport :=
  log.filterMap (Effect.reportOf k)

/-- The last report the node delivered. -/
def lastReport (log : List Effect) (k : CoreId) : Option ProcessReport :=
  (reports log k).getLast?

/-- The progress of the nodes and the events of the log. -/
def Plant.line (σ : Plant) : Line where
  progress i := ((σ.nodes i).map HierNode.toProgress).getD default
  events := σ.log.filterMap Effect.event?

/-! ## The invariant -/

/-- What was delivered is what both ends remember. -/
structure Mirrored (σ : Plant) : Prop where
  /-- The signature a node compares with is the one of its last report. -/
  sent : ∀ k n u, σ.nodes k = some n → n.up = some u →
    n.lastSig = ((lastReport σ.log k).map fun r => r.status.sig).getD noSig
  /-- The entries of a node are the last reports of its children. -/
  ready : ∀ i p, σ.nodes i = some p → ∀ k, p.childReady.lookup k =
    if k ∈ p.childIds then (lastReport σ.log k).map ProcessReport.ready else none
  block : ∀ i p, σ.nodes i = some p → ∀ k, p.childBlock.lookup k =
    if k ∈ p.childIds then (lastReport σ.log k).map ProcessReport.blocking else none
  /-- No report repeats the one before. -/
  fresh : ∀ k, (reports σ.log k).IsChain fun r r' => r.status ≠ r'.status

/-- The flags are recomputed and the last report is true; or there was none yet, and
nothing to report. -/
structure Settled (n : HierNode) : Prop where
  recomputed : n.recompute = n
  reported : n.lastSig = n.status.sig ∨ n.lastSig = noSig ∧ n.status = Status.initial

/-- The plant has the layout, its messages are mirrored, and its nodes are settled apart
from those in `D`. -/
structure Good (L : Layout) (D : Set CoreId) (σ : Plant) : Prop where
  layout : σ.layout = L
  mirrored : Mirrored σ
  settled : ∀ m n, σ.nodes m = some n → m ∉ D → Settled n

/-! ## Small lemmas -/

section Small

variable {σ : Plant} {i m : CoreId} {n n' : HierNode} {L : Layout}

@[simp] theorem nodes_set_self (σ : Plant) (i : CoreId) (n : HierNode) :
    (σ.set i n).nodes i = some n := by
  simp [Plant.set]

@[simp] theorem nodes_set_ne (σ : Plant) (n : HierNode) (h : m ≠ i) :
    (σ.set i n).nodes m = σ.nodes m := by
  simp [Plant.set, h]

@[simp] theorem log_set (σ : Plant) (i : CoreId) (n : HierNode) : (σ.set i n).log = σ.log := rfl

@[simp] theorem nodes_record (σ : Plant) (es : List Effect) : (σ.record es).nodes = σ.nodes := rfl

@[simp] theorem log_record (σ : Plant) (es : List Effect) :
    (σ.record es).log = σ.log ++ es := rfl

theorem set_set (σ : Plant) (i : CoreId) (n n' : HierNode) :
    (σ.set i n).set i n' = σ.set i n' := by
  simp [Plant.set]

theorem record_record (σ : Plant) (es es' : List Effect) :
    (σ.record es).record es' = σ.record (es ++ es') := by
  simp [Plant.record]

theorem layout_set (n' : HierNode) (h : σ.nodes i = some n) (hc : n'.toNodeConfig = n.toNodeConfig) :
    (σ.set i n').layout = σ.layout := by
  funext m
  by_cases hm : m = i
  · subst hm
    simp [Plant.layout, h, hc]
  · simp [Plant.layout, hm]

@[simp] theorem layout_record (σ : Plant) (es : List Effect) :
    (σ.record es).layout = σ.layout := rfl

theorem layout_eq_of_nodes (hL : σ.layout = L) (h : σ.nodes i = some n) :
    L i = some n.toNodeConfig := by
  simp [← hL, Plant.layout, h]

theorem exists_node_of_layout {c : NodeConfig} (hL : σ.layout = L) (h : L i = some c) :
    ∃ n, σ.nodes i = some n ∧ n.toNodeConfig = c := by
  rw [← hL] at h
  simpa [Plant.layout] using h

theorem nodes_none_of_layout (hL : σ.layout = L) (h : L i = none) : σ.nodes i = none := by
  rw [← hL] at h
  simpa [Plant.layout] using h

theorem progress_of_nodes (h : σ.nodes i = some n) : σ.line.progress i = n.toProgress := by
  simp [Plant.line, h]

@[simp] theorem line_record_events (σ : Plant) (es : List DomainEvent) :
    (σ.record (es.map .event)).line = ⟨σ.line.progress, σ.line.events ++ es⟩ := by
  simp [Plant.line, Plant.record, List.filterMap_append, List.filterMap_map, Function.comp_def,
    Effect.event?]

/-- Giving a node other progress gives it other progress on the line. -/
theorem line_set (σ : Plant) (i : CoreId) (n' : HierNode) :
    (σ.set i n').line = σ.line.update i (n'.toProgress, []) := by
  ext m
  · by_cases hm : m = i
    · subst hm
      simp [Plant.line, Line.update]
    · simp [Plant.line, Line.update, hm]
  · simp [Plant.line, Line.update]

theorem line_set_same (n' : HierNode) (h : σ.nodes i = some n) (hp : n'.toProgress = n.toProgress) :
    (σ.set i n').line = σ.line := by
  rw [line_set, hp, ← progress_of_nodes h]
  simp [Line.update]

/-- Traces and reports are not events. -/
theorem line_record_of_none {es : List Effect} (σ : Plant) (h : ∀ e ∈ es, e.event? = none) :
    (σ.record es).line = σ.line := by
  have hes : es.filterMap Effect.event? = [] := by simpa using h
  simp [Plant.line, Plant.record, hes]

/-- Only reports count for the reports. -/
theorem reports_append_of_none {es : List Effect} (log : List Effect) (k : CoreId)
    (h : ∀ e ∈ es, e.reportOf k = none) : reports (log ++ es) k = reports log k := by
  simpa [reports, List.filterMap_append] using h

theorem Good.mono {D D' : Set CoreId} (h : Good L D σ) (hD : D ⊆ D') : Good L D' σ :=
  ⟨h.layout, h.mirrored, fun m n hn hm => h.settled m n hn fun hmem => hm (hD hmem)⟩

end Small

/-! ## The messages -/

section Messages

variable {L : Layout} {height : CoreId → ℕ} {limit : ℕ} {σ σ' : Plant} {i : CoreId}
  {n : HierNode}

/-- The mirror only sees the entries, the signatures and the reports. -/
theorem Mirrored.congr (h : Mirrored σ) (hrep : ∀ k, reports σ'.log k = reports σ.log k)
    (hnodes : ∀ m n', σ'.nodes m = some n' → ∃ n, σ.nodes m = some n ∧
      n'.toNodeConfig = n.toNodeConfig ∧ n'.childReady = n.childReady ∧
      n'.childBlock = n.childBlock ∧ (n.up.isSome → n'.lastSig = n.lastSig)) :
    Mirrored σ' where
  sent := by
    intro k n' u hk hu
    obtain ⟨n, hn, hconf, -, -, hsig⟩ := hnodes k n' hk
    rw [hconf] at hu
    rw [hsig (by simp [hu]), h.sent k n u hn hu, lastReport, lastReport, hrep]
  ready := by
    intro m n' hm k
    obtain ⟨n, hn, hconf, hready, -, -⟩ := hnodes m n' hm
    rw [hready, h.ready m n hn k, hconf, lastReport, lastReport, hrep]
  block := by
    intro m n' hm k
    obtain ⟨n, hn, hconf, -, hblock, -⟩ := hnodes m n' hm
    rw [hblock, h.block m n hn k, hconf, lastReport, lastReport, hrep]
  fresh := by
    intro k
    rw [hrep]
    exact h.fresh k

/-- The table of a node after child `i` has delivered `r` to `u`: an entry changes at the
parent and for this child only. -/
theorem lookup_entry {u : Upstream} {m k : CoreId} {r : ProcessReport} {ids : List CoreId}
    {t : AList fun _ : CoreId => Bool} {last : Option ProcessReport}
    (f : ProcessReport → Bool) (hparent : i ∈ ids ↔ u = .node m)
    (ht : t.lookup k = if k ∈ ids then last.map f else none) :
    (if u = .node m then t.insert i (f r) else t).lookup k =
      if k ∈ ids then (if k = i then some r else last).map f else none := by
  by_cases hk : k = i
  · subst hk
    by_cases hup : u = .node m
    · simp [hup, hparent.mpr hup]
    · have hout : k ∉ ids := fun hmem => hup (hparent.mp hmem)
      simp [hup, ht, hout]
  · by_cases hup : u = .node m <;> simp [hup, hk, ht]

/-- A node that delivers a report with a new signature, which its parent takes in. -/
theorem Mirrored.publish (hw : Wired L height limit) (hL : σ.layout = L) (h : Mirrored σ)
    (hi : σ.nodes i = some n) {u : Upstream} (hu : n.up = some u) (r : ProcessReport)
    (hne : r.status.sig ≠ n.lastSig)
    (hrep : ∀ k, reports σ'.log k = if k = i then reports σ.log i ++ [r] else reports σ.log k)
    (hnodes : ∀ m n', σ'.nodes m = some n' → ∃ n, σ.nodes m = some n ∧
      n'.toNodeConfig = n.toNodeConfig ∧
      n'.lastSig = (if m = i then r.status.sig else n.lastSig) ∧
      n'.childReady = (if u = .node m then n.childReady.insert i r.ready else n.childReady) ∧
      n'.childBlock =
        (if u = .node m then n.childBlock.insert i r.blocking else n.childBlock)) :
    Mirrored σ' := by
  have hlast : ∀ k, lastReport σ'.log k = if k = i then some r else lastReport σ.log k := by
    intro k
    by_cases hk : k = i <;> simp [lastReport, hrep, hk]
  have hparent : ∀ m p, σ.nodes m = some p → (i ∈ p.childIds ↔ u = .node m) :=
    fun m p hp => hw.mem_childIds_iff (layout_eq_of_nodes hL hi) hu (layout_eq_of_nodes hL hp)
  refine ⟨?_, ?_, ?_, ?_⟩
  · intro k n' v hk hv
    obtain ⟨m, hm, hconf, hsig, -, -⟩ := hnodes k n' hk
    rw [hsig, hlast]
    by_cases hki : k = i
    · simp [hki]
    · simpa [hki] using h.sent k m v hm (hconf ▸ hv)
  · intro m n' hm k
    obtain ⟨p, hp, hconf, -, hready, -⟩ := hnodes m n' hm
    rw [hready, hconf, hlast]
    exact lookup_entry ProcessReport.ready (hparent m p hp) (h.ready m p hp k)
  · intro m n' hm k
    obtain ⟨p, hp, hconf, -, -, hblock⟩ := hnodes m n' hm
    rw [hblock, hconf, hlast]
    exact lookup_entry ProcessReport.blocking (hparent m p hp) (h.block m p hp k)
  · intro k
    rw [hrep]
    by_cases hk : k = i
    · rw [if_pos hk, List.isChain_append]
      refine ⟨h.fresh i, List.isChain_singleton _, ?_⟩
      intro r₀ hr₀ r₁ hr₁ heq
      obtain rfl : r = r₁ := by simpa using hr₁
      have hsent := h.sent i n u hi hu
      rw [lastReport, hr₀] at hsent
      exact hne (by rw [hsent, ← heq]; rfl)
    · rw [if_neg hk]
      exact h.fresh k

end Messages

/-! ## The way up -/

section Up

variable {L : Layout} {height : CoreId → ℕ} {limit : ℕ} {σ : Plant} {i : CoreId}
  {n n' : HierNode} {D : Set CoreId}

/-- Settling one node more. -/
theorem Good.settle (h : Good L D σ) {τ : Plant} (hlayout : τ.layout = L)
    (hmirrored : Mirrored τ)
    (hnodes : ∀ m k, τ.nodes m = some k → m ≠ i → m ∉ D → σ.nodes m = some k)
    (hi : τ.nodes i = some n') (hn' : Settled n') : Good L (D \ {i}) τ := by
  refine ⟨hlayout, hmirrored, ?_⟩
  intro m k hk hm
  by_cases hmi : m = i
  · subst hmi
    obtain rfl := Option.some.inj (hi.symm.trans hk)
    exact hn'
  · have hD : m ∉ D := fun hmem => hm ⟨hmem, hmi⟩
    exact h.settled m k (hnodes m k hk hmi hD) hD

theorem deliver_host (calls : ℕ) (r : ProcessReport) (σ : Plant) :
    Plant.deliver calls .host r σ = some σ := by
  cases calls <;> rfl

/-- The call of the trace hook, if there is one. -/
private def traced (n : HierNode) (r : ProcessReport) : List Effect :=
  if n.trace then [.trace r] else []

private theorem eq_trace {n : HierNode} {r : ProcessReport} {e : Effect}
    (he : e ∈ traced n r) : e = .trace r := by
  unfold traced at he
  split at he
  · exact List.mem_singleton.mp he
  · cases he

/-- What a node writes when it delivers a report. -/
private def written (n : HierNode) (r : ProcessReport) : List Effect :=
  traced n r ++ [.report r]

private theorem reports_written (log : List Effect) (n : HierNode) {r : ProcessReport}
    (hr : r.origin = i) (k : CoreId) :
    reports (log ++ written n r) k =
      if k = i then reports log i ++ [r] else reports log k := by
  have htrace : reports (log ++ traced n r) k = reports log k := by
    refine reports_append_of_none log k ?_
    intro e he
    rw [eq_trace he]
    rfl
  rw [written, ← List.append_assoc, reports, List.filterMap_append, ← reports, htrace]
  by_cases hk : k = i
  · simp [Effect.reportOf, hr, hk]
  · simp [Effect.reportOf, hr, hk, Ne.symm hk]

private theorem event?_written {n : HierNode} {r : ProcessReport} :
    ∀ e ∈ written n r, e.event? = none := by
  intro e he
  rcases List.mem_append.mp he with he | he
  · rw [eq_trace he]
    rfl
  · obtain rfl := List.mem_singleton.mp he
    rfl

/-- Recomputing without a report. -/
private theorem good_recompute (h : Good L D σ) (hi : σ.nodes i = some n)
    (hsig : n.recompute.status.sig = n.lastSig) : Good L (D \ {i}) (σ.set i n.recompute) := by
  refine h.settle ((layout_set n.recompute hi rfl).trans h.layout) ?_ ?_ (nodes_set_self σ i _)
    ⟨rfl, .inl hsig.symm⟩
  · refine h.mirrored.congr (fun _ => rfl) ?_
    intro m k hk
    by_cases hm : m = i
    · subst hm
      obtain rfl : n.recompute = k := by simpa using hk
      exact ⟨n, hi, rfl, rfl, rfl, fun _ => rfl⟩
    · exact ⟨k, by simpa [hm] using hk, rfl, rfl, rfl, fun _ => rfl⟩
  · intro m k hk hm _
    simpa [hm] using hk

/-- The node with the signature of its new report. -/
private def signed (n : HierNode) : HierNode :=
  { n.recompute with lastSig := n.recompute.status.sig }

private theorem settled_signed (n : HierNode) : Settled (signed n) := ⟨rfl, .inl rfl⟩

/-- The top of the hierarchy recomputes and has nobody to report to. -/
private theorem good_signed (h : Good L D σ) (hi : σ.nodes i = some n) (hup : n.up = none)
    {es : List Effect} (hes : ∀ e ∈ es, ∀ k, e.reportOf k = none) :
    Good L (D \ {i}) ((σ.set i (signed n)).record es) := by
  refine h.settle ((layout_set (signed n) hi rfl).trans h.layout) ?_ ?_ (nodes_set_self σ i _)
    (settled_signed n)
  · refine h.mirrored.congr (fun k => reports_append_of_none _ k fun e he => hes e he k) ?_
    intro m k hk
    by_cases hm : m = i
    · subst hm
      obtain rfl : signed n = k := by simpa using hk
      exact ⟨n, hi, rfl, rfl, rfl, fun hsome => by simp [hup] at hsome⟩
    · exact ⟨k, by simpa [hm] using hk, rfl, rfl, rfl, fun _ => rfl⟩
  · intro m k hk hm _
    simpa [hm] using hk

/-- The top of the hierarchy reports to the host. -/
private theorem good_host (hw : Wired L height limit) (h : Good L D σ)
    (hi : σ.nodes i = some n) (hup : n.up = some .host)
    (hsig : n.recompute.status.sig ≠ n.lastSig) :
    Good L (D \ {i})
      ((σ.set i (signed n)).record (written n.recompute n.recompute.buildReport)) := by
  have hid : n.id = i := hw.id_eq i n.toNodeConfig (layout_eq_of_nodes h.layout hi)
  refine h.settle ((layout_set (signed n) hi rfl).trans h.layout) ?_ ?_ (nodes_set_self σ i _)
    (settled_signed n)
  · refine Mirrored.publish hw h.layout h.mirrored hi hup n.recompute.buildReport
      (by simpa using hsig) (fun k => reports_written σ.log n.recompute hid k) ?_
    intro m k hk
    by_cases hm : m = i
    · subst hm
      obtain rfl : signed n = k := by simpa using hk
      exact ⟨n, hi, rfl, by simp [signed], by simp [signed, HierNode.recompute],
        by simp [signed, HierNode.recompute]⟩
    · exact ⟨k, by simpa [hm] using hk, rfl, by simp [hm], by simp, by simp⟩
  · intro m k hk hm _
    simpa [hm] using hk

/-- A node reports to its parent, which now has to recompute. -/
private theorem good_parent (hw : Wired L height limit) (h : Good L D σ)
    (hi : σ.nodes i = some n) {p : CoreId} (hup : n.up = some (.node p)) {np : HierNode}
    (hp : σ.nodes p = some np) (hne : p ≠ i) (hsig : n.recompute.status.sig ≠ n.lastSig) :
    Good L (insert p (D \ {i}))
      (((σ.set i (signed n)).record (written n.recompute n.recompute.buildReport)).set p
        (np.receive n.recompute.buildReport)) := by
  have hid : n.id = i := hw.id_eq i n.toNodeConfig (layout_eq_of_nodes h.layout hi)
  have hlayout : ((σ.set i (signed n)).record
      (written n.recompute n.recompute.buildReport)).layout = L :=
    (layout_set (signed n) hi rfl).trans h.layout
  have hp' : ((σ.set i (signed n)).record
      (written n.recompute n.recompute.buildReport)).nodes p = some np := by
    simpa [hne] using hp
  refine ⟨(layout_set (np.receive n.recompute.buildReport) hp' rfl).trans hlayout, ?_, ?_⟩
  · refine Mirrored.publish hw h.layout h.mirrored hi hup n.recompute.buildReport
      (by simpa using hsig) (fun k => reports_written σ.log n.recompute hid k) ?_
    intro m k hk
    by_cases hm : m = i
    · subst hm
      obtain rfl : signed n = k := by simpa [Ne.symm hne] using hk
      exact ⟨n, hi, rfl, by simp [signed], by simp [signed, HierNode.recompute, hne],
        by simp [signed, HierNode.recompute, hne]⟩
    · by_cases hmp : m = p
      · subst hmp
        obtain rfl : np.receive n.recompute.buildReport = k := by simpa using hk
        exact ⟨np, hp, rfl, by simp [HierNode.receive, hm],
          by simp [HierNode.receive, HierNode.buildReport, HierNode.recompute, hid],
          by simp [HierNode.receive, HierNode.buildReport, HierNode.recompute, hid]⟩
      · exact ⟨k, by simpa [hm, hmp] using hk, rfl, by simp [hm], by simp [Ne.symm hmp],
          by simp [Ne.symm hmp]⟩
  · intro m k hk hm
    have hmp : m ≠ p := fun heq => hm (.inl heq)
    by_cases hmi : m = i
    · subst hmi
      obtain rfl : signed n = k := by simpa [hmp] using hk
      exact settled_signed n
    · have hD : m ∉ D := fun hmem => hm (.inr ⟨hmem, hmi⟩)
      exact h.settled m k (by simpa [hmp, hmi] using hk) hD

theorem recomputeAndReport_silent {deliver : Upstream → ProcessReport → Plant → Option Plant}
    (hi : σ.nodes i = some n) (hsig : n.recompute.status.sig = n.lastSig) :
    Plant.recomputeAndReport deliver i σ = some (σ.set i n.recompute) := by
  simp only [Plant.recomputeAndReport, hi, Plant.publish, HierNode.signature_buildReport]
  exact if_pos hsig

private theorem recomputeAndReport_loud (calls : ℕ) (hi : σ.nodes i = some n)
    (hsig : n.recompute.status.sig ≠ n.lastSig) :
    Plant.recomputeAndReport (Plant.deliver calls) i σ =
      match n.up with
      | none => some ((σ.set i (signed n)).record (traced n n.recompute.buildReport))
      | some up => Plant.deliver calls up n.recompute.buildReport
          ((σ.set i (signed n)).record (written n.recompute n.recompute.buildReport)) := by
  have hne : signature n.recompute.buildReport ≠ n.recompute.lastSig := hsig
  have hset : (σ.set i n.recompute).set i
      { n.recompute with lastSig := signature n.recompute.buildReport } =
        σ.set i (signed n) := set_set σ i _ _
  have hup : n.recompute.up = n.up := rfl
  simp only [Plant.recomputeAndReport, hi, Plant.publish, if_neg hne, hset, hup, record_record]
  rfl

/-- **A node that recomputes and reports is settled when the call returns**, and so is
every node that was settled before; nobody's progress changes. -/
theorem recompute_spec (hw : Wired L height limit) {calls : ℕ} (h : Good L D σ)
    (hi : σ.nodes i = some n) (hcalls : limit ≤ calls + height i + 1) :
    ∃ τ, Plant.recomputeAndReport (Plant.deliver calls) i σ = some τ ∧
      Good L (D \ {i}) τ ∧ τ.line = σ.line := by
  -- The way up ends because the height grows and is bounded.
  induction hk : limit - height i using Nat.strong_induction_on
    generalizing calls i σ D n with
  | _ k ih =>
      have hline : (σ.set i (signed n)).line = σ.line := line_set_same (signed n) hi rfl
      by_cases hsig : n.recompute.status.sig = n.lastSig
      · exact ⟨σ.set i n.recompute, by rw [recomputeAndReport_silent hi hsig],
          good_recompute h hi hsig, line_set_same n.recompute hi rfl⟩
      · have hstart := recomputeAndReport_loud calls hi hsig
        cases hup : n.up with
        | none =>
            rw [hup] at hstart
            refine ⟨_, hstart, good_signed h hi hup ?_, ?_⟩
            · intro e he k
              rw [eq_trace he]
              rfl
            · rw [line_record_of_none _ (fun e he => by rw [eq_trace he]; rfl), hline]
        | some u =>
            rw [hup] at hstart
            cases u with
            | host =>
                refine ⟨_, hstart.trans (deliver_host _ _ _), good_host hw h hi hup hsig, ?_⟩
                rw [line_record_of_none _ event?_written, hline]
            | node p =>
                have hLi := layout_eq_of_nodes h.layout hi
                obtain ⟨c, hc, hmem⟩ := hw.parent i _ p hLi hup
                obtain ⟨np, hp, -⟩ := exists_node_of_layout h.layout hc
                have hlower := hw.lower p c hc i hmem
                have hbound := hw.bounded p c hc
                obtain ⟨calls, rfl⟩ : ∃ m, calls = m + 1 := ⟨calls - 1, by omega⟩
                have hne : p ≠ i := by
                  rintro rfl
                  exact lt_irrefl _ hlower
                have hp' : ((σ.set i (signed n)).record
                    (written n.recompute n.recompute.buildReport)).nodes p = some np := by
                  simpa [hne] using hp
                have hcalls' : limit ≤ calls + height p + 1 := by omega
                obtain ⟨τ, hτ, hgood, hτline⟩ := ih (limit - height p) (by omega)
                  (good_parent hw h hi hup hp hne hsig) (nodes_set_self _ p _) hcalls' rfl
                refine ⟨τ, ?_, hgood.mono ?_, ?_⟩
                · rw [hstart]
                  simp only [Plant.deliver, hp']
                  exact hτ
                · rintro m ⟨rfl | hm, hmp⟩
                  · exact absurd rfl hmp
                  · exact hm
                · rw [hτline, line_set_same (np.receive n.recompute.buildReport) hp' rfl,
                    line_record_of_none _ event?_written, hline]

end Up

end Opencode.Hier

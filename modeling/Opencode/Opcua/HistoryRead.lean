import Opencode.Lib.Run
import Opencode.Opcua.Requests

/-!
# Reading history

`historyReadRaw` fills two lists in one loop over the data values of the first result: the
values, where there is one, and the time stamps.  A caller reads the two lists by one index.

## Main definitions

* `OPCUAClient.historyReadRaw` — the operation.
* `Aligned` — the two lists come from the same data values.
* `historyReadRaw_aligned_iff` — when they do.
-/

namespace Opencode.Opcua

open Opencode.Lib

structure HistoryReadResponse (F D : Type) where
  status : UInt32
  values : List (VariantValue F D) := []
  timestamps : List UInt64 := []

/-- A result of the history service. -/
structure UAHistoryReadResult (F D O : Type) where
  statusCode : UInt32
  dataValues : List (AnswerValue F D O)

/-- The data value has a value, and the value a type. -/
def AnswerValue.Filled {F D O : Type} (dv : AnswerValue F D O) : Prop :=
  dv.hasValue = true ∧ dv.value.hasType = true

instance {F D O : Type} : DecidablePred (AnswerValue.Filled : AnswerValue F D O → Prop) :=
  fun dv => inferInstanceAs (Decidable (dv.hasValue = true ∧ dv.value.hasType = true))

namespace OPCUAClient

variable {F D O : Type}

/-- The body of the loop: the value is added under a condition, the time stamp always. -/
def collect (resp : HistoryReadResponse F D) (dv : AnswerValue F D O) :
    Option (HistoryReadResponse F D) := do
  let values ← if dv.Filled then dv.value.toProto.map ([·]) else some []
  some { resp with
    values := resp.values ++ values
    timestamps := resp.timestamps ++ [dv.sourceTimestamp.toUInt64] }

def historyReadRaw (service : UAHistoryRead → UInt32 × List (UAHistoryReadResult F D O))
    (req : HistoryReadRequest) : Option (HistoryReadResponse F D) :=
  match service req.native with
  | (status, []) => some { status }
  | (status, result :: _) =>
      if status ≠ good then some { status }
      else run collect { status := result.statusCode } result.dataValues

/-- The data values an answer gives for the node asked for. -/
def historyData : UInt32 × List (UAHistoryReadResult F D O) → List (AnswerValue F D O)
  | (_, []) => []
  | (status, result :: _) => if status ≠ good then [] else result.dataValues

/-- The values and the time stamps are those of the same data values, in their order. -/
structure Aligned (data : List (AnswerValue F D O)) (resp : HistoryReadResponse F D) : Prop where
  length_eq : resp.values.length = resp.timestamps.length
  origins : ∃ origins, origins.Sublist data ∧
    List.Forall₂ (fun dv v => dv.value.toProto = some v) origins resp.values ∧
    resp.timestamps = origins.map fun dv => dv.sourceTimestamp.toUInt64

variable {data : List (AnswerValue F D O)} {resp resp' : HistoryReadResponse F D}

theorem collect_of_filled {dv : AnswerValue F D O} (h : dv.Filled) :
    collect resp dv = dv.value.toProto.map fun v =>
      { resp with
        values := resp.values ++ [v]
        timestamps := resp.timestamps ++ [dv.sourceTimestamp.toUInt64] } := by
  cases hv : dv.value.toProto <;> simp [collect, h, hv]

theorem collect_of_not_filled {dv : AnswerValue F D O} (h : ¬ dv.Filled) :
    collect resp dv =
      some { resp with timestamps := resp.timestamps ++ [dv.sourceTimestamp.toUInt64] } := by
  simp [collect, h]

/-- What the loop adds: the values of the data values that have one, and every time
stamp. -/
theorem exists_of_run_collect (h : run collect resp data = some resp') :
    ∃ values,
      List.Forall₂ (fun dv v => dv.value.toProto = some v)
        (data.filter fun dv => decide dv.Filled) values ∧
      resp'.values = resp.values ++ values ∧
      resp'.timestamps = resp.timestamps ++ data.map fun dv => dv.sourceTimestamp.toUInt64 := by
  induction data generalizing resp with
  | nil =>
      obtain rfl : resp = resp' := by simpa using h
      exact ⟨[], .nil, by simp, by simp⟩
  | cons dv data ih =>
      obtain ⟨mid, hstep, hrun⟩ := Option.bind_eq_some_iff.mp h
      obtain ⟨rest, hrest, hv, hts⟩ := ih hrun
      by_cases hdv : dv.Filled
      · rw [collect_of_filled hdv] at hstep
        obtain ⟨v, hconv, rfl⟩ := Option.map_eq_some_iff.mp hstep
        refine ⟨v :: rest, ?_, by simpa using hv, by simpa using hts⟩
        rw [List.filter_cons_of_pos (by simpa using hdv)]
        exact .cons hconv hrest
      · rw [collect_of_not_filled hdv, Option.some.injEq] at hstep
        subst hstep
        refine ⟨rest, ?_, by simpa using hv, by simpa using hts⟩
        rwa [List.filter_cons_of_neg (by simpa using hdv)]

/-- The loop keeps the two lists aligned exactly when every data value has a value: with as
many values as time stamps, none was left out. -/
theorem aligned_iff_of_run_collect {status : UInt32}
    (h : run collect { status } data = some resp) :
    Aligned data resp ↔ ∀ dv ∈ data, dv.Filled := by
  obtain ⟨values, hvalues, hv, hts⟩ := exists_of_run_collect h
  rw [List.nil_append] at hv hts
  constructor
  · rintro ⟨hlen, -⟩
    rw [hv, hts, List.length_map, ← hvalues.length_eq, List.length_filter_eq_length_iff] at hlen
    simpa using hlen
  · intro hall
    rw [List.filter_eq_self.mpr (by simpa using hall), ← hv] at hvalues
    refine ⟨?_, data, .refl data, hvalues, hts⟩
    rw [hts, List.length_map, hvalues.length_eq]

/-- **History values and time stamps are aligned** exactly when every data value of the
answer has a value with a type. -/
theorem historyReadRaw_aligned_iff
    {service : UAHistoryRead → UInt32 × List (UAHistoryReadResult F D O)}
    {req : HistoryReadRequest} (h : historyReadRaw service req = some resp) :
    Aligned (historyData (service req.native)) resp ↔
      ∀ dv ∈ historyData (service req.native), dv.Filled := by
  unfold historyReadRaw at h
  generalize service req.native = answer at h ⊢
  obtain ⟨status, _ | ⟨result, results⟩⟩ := answer
  · cases h
    exact aligned_iff_of_run_collect rfl
  · by_cases hbad : status ≠ good
    · rw [historyData, if_pos hbad]
      obtain rfl : { status } = resp := by simpa [hbad] using h
      exact aligned_iff_of_run_collect rfl
    · rw [historyData, if_neg hbad]
      exact aligned_iff_of_run_collect (by simpa [hbad] using h)

/-- A data value of the tests. -/
private def sample (hasValue : Bool) (x : Int32) (ts : Int64) : AnswerValue ℚ ℚ Unit where
  hasValue := hasValue
  value := .plain (.scalar .int32 x)
  status := good
  serverTimestamp := ts
  sourceTimestamp := ts

private def lastHour : HistoryReadRequest := ⟨⟨0, .numeric 4001⟩, 0, 36000000000, 100⟩

/-- A service with one result. -/
private def answering (data : List (AnswerValue ℚ ℚ Unit)) :
    UAHistoryRead → UInt32 × List (UAHistoryReadResult ℚ ℚ Unit) :=
  fun _ => (good, [⟨good, data⟩])

/-- A sample without a value in front of one with: the one value goes with the time stamp
of the other. -/
theorem not_aligned_missing_sample :
    ¬ ∀ (service : UAHistoryRead → UInt32 × List (UAHistoryReadResult ℚ ℚ Unit))
      (req : HistoryReadRequest) (resp : HistoryReadResponse ℚ ℚ),
      historyReadRaw service req = some resp →
        Aligned (historyData (service req.native)) resp := by
  intro h
  have hlen := (h (answering [sample false 0 1, sample true 7 2]) lastHour
    ⟨good, [{ type := .int32, value := some (.int32Val 7) }], [1, 2]⟩ rfl).length_eq
  exact absurd hlen (by decide)

theorem aligned_samples :
    Aligned [sample true 7 1, sample true 8 2]
      ⟨good, [{ type := .int32, value := some (.int32Val 7) },
        { type := .int32, value := some (.int32Val 8) }], [1, 2]⟩ := by
  have h : historyReadRaw (answering [sample true 7 1, sample true 8 2]) lastHour =
      some ⟨good, [{ type := .int32, value := some (.int32Val 7) },
        { type := .int32, value := some (.int32Val 8) }], [1, 2]⟩ := rfl
  exact (historyReadRaw_aligned_iff h).mpr (by decide)

end OPCUAClient
end Opencode.Opcua

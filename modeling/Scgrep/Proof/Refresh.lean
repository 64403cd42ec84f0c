import Scgrep.Proof.Publish
import Scgrep.Spec.Tables

/-!
# Does every cycle refresh every cell?

`refreshes_iff`: **a cycle publishes one result for each cell and protocol, and sets
the gauges of each, iff every answer of the services can be read and decoded.** The
first response whose body cannot be read, a body nested too deeply for the decoder,
an infinite `numberMatched`, a next link that is no URL and an id that UTF-8 cannot
encode make a fetch raise, and the cycle goes on without its result.

`requests` raises nothing but `RequestException` here, and a Redis command only for
such an id. What `json.loads` can decode, `str` and the logger can write.
-/

namespace Scgrep

variable {L : Lib} {cfg : Config} {E : CycleEnv} {call : Cell → FetchCall} {auth : List String}
  {σ : ℕ → SyncScript} {α : ℕ → AsyncScript}

/-- The label of a cell and a protocol. -/
def Cell.labels (cfg : Config) (cell : Cell) (p : Protocol) : Labels :=
  ⟨cfg.sensorCentreId, cell.centreId, cell.topic, p⟩

/-- All fetches return, one result is published for each cell and protocol, and the gauges of
each show a result of this cycle. -/
structure Refreshes (cfg : Config) (E : CycleEnv) : Prop where
  returns : E.Returns cfg
  results : (E.results cfg).map (fun r => (r.cell, r.result.protocol)) =
    cfg.cells.flatMap fun cell => [(cell, Protocol.http), (cell, Protocol.mqtt)]
  gauges : ∀ (m : Metrics) (cell : Cell) (p : Protocol), cell ∈ cfg.cells →
    ∃ r ∈ E.results cfg, r.labels cfg = cell.labels cfg p ∧
      (runCycle cfg E m).Shows (cell.labels cfg p) r.result

theorem refreshes_of_returns (hp : E.Proper cfg) (hr : E.Returns cfg) : Refreshes cfg E := by
  have hres := results_of_returns hp hr
  refine ⟨hr, hres, ?_⟩
  intro m cell p hcell
  have hmem : (cell, p) ∈ (E.results cfg).map fun r => (r.cell, r.result.protocol) := by
    rw [hres, List.mem_flatMap]
    exact ⟨cell, hcell, by cases p <;> simp⟩
  obtain ⟨r, hr, he⟩ := List.mem_map.1 hmem
  obtain ⟨hc, hpr⟩ := Prod.mk.inj he
  exact publishAll_shows cfg _ _ m ⟨r, hr, by unfold CellResult.labels Cell.labels; rw [hc, hpr]⟩

/-- **Every cell is refreshed** iff every answer the fetches come to is fine. -/
theorem refreshes_iff (h : E.FromFetches cfg L call auth σ α) :
    Refreshes cfg E ↔ ∀ i cell, cfg.cells[i]? = some cell →
      SyncFine L (call cell) (σ i) ∧ (α i).exchange.Decodes L := by
  have hiff : ∀ i cell, cfg.cells[i]? = some cell →
      ((∃ r, E.sync i = .ok r) ∧ (∃ r, E.async i = .ok r) ↔
        SyncFine L (call cell) (σ i) ∧ (α i).exchange.Decodes L) := by
    intro i cell hi
    rw [h.sync i cell hi, h.async i cell hi, syncFetch_returns_iff, asyncFetch_returns_iff]
  constructor
  · intro hr i cell hi; exact (hiff i cell hi).1 (hr.returns i cell hi)
  · intro hf
    exact refreshes_of_returns h.proper fun i cell hi => (hiff i cell hi).2 (hf i cell hi)

/-! ## A body that cannot be read -/

/-- The one cell of the shipped configuration. -/
def shippedCell : Cell :=
  ⟨"cache/a/wis2/#", "ca-eccc-msc-global-replay", "https://wis2-grep.weather.gc.ca"⟩

theorem shipped_cells {i : ℕ} {cell : Cell} (h : shippedConfig.cells[i]? = some cell) :
    cell = shippedCell := by
  have := List.mem_of_getElem? h
  simpa [shippedConfig, sampleConfig, Config.cells, Config.replayTargets, shippedCell] using this

/-- The arguments of the fetches of a cell. -/
def sampleCall (cell : Cell) : FetchCall :=
  ⟨cell.replayUrl, cell.centreId, cell.topic, "2024-01-01T00:00:00Z", "2024-01-01T00:05:00Z", 285, 585⟩

/-- The store holds nothing. -/
def emptyView : View := ⟨Redis.Db.empty, newYear + 600⟩

/-- A cycle in which the first request of the synchronous fetch ends like `x`, and the POST
is refused. -/
def sampleCycle (x : Exchange) : CycleEnv where
  now := newYear + 600
  baseline _ := emptyView
  sync _ := syncFetch sampleTables.lib (sampleCall shippedCell) ⟨300, 301, fun _ => 302, fun _ => x⟩
  async _ := asyncFetch sampleTables.lib (sampleCall shippedCell) "sub" [] 0 none
    ⟨300, 301, .fails, ReplayCounter.new⟩
  syncRecount _ := emptyView
  asyncRecount _ := emptyView

theorem sampleCycle_fromFetches :
    (sampleCycle .fails).FromFetches shippedConfig sampleTables.lib sampleCall []
      (fun _ => ⟨300, 301, fun _ => 302, fun _ => .fails⟩)
      (fun _ => ⟨300, 301, .fails, ReplayCounter.new⟩) := by
  have hbase : ((baselineDict ((sampleCycle .fails).counts shippedConfig)).get?
      shippedCell.topic).getD 0 = 0 := by decide +kernel
  refine ⟨?_, ?_⟩
  · intro i cell hi; rw [shipped_cells hi]; rfl
  · intro i cell hi; rw [shipped_cells hi, hbase]; rfl

/-- The fetch raises, nothing is published for it, and its gauges keep what they showed. -/
theorem broken_body_not_refreshed :
    (sampleCycle (.broken 200)).sync 0 = .error .requestException ∧
      ((sampleCycle (.broken 200)).results shippedConfig).map (fun r => r.result.protocol) = [.mqtt] ∧
      (runCycle shippedConfig (sampleCycle (.broken 200))
          (runCycle shippedConfig (sampleCycle (.answer 200 "")) Metrics.new)).httpResponseCode
        (shippedCell.labels shippedConfig .http) = some 200 ∧
      ¬ Refreshes shippedConfig (sampleCycle (.broken 200)) := by
  have h : (sampleCycle (.broken 200)).sync 0 = .error .requestException := by rfl
  refine ⟨h, by decide +kernel, by decide +kernel, ?_⟩
  intro hr
  obtain ⟨⟨r, hr⟩, -⟩ := hr.returns 0 shippedCell rfl
  rw [h] at hr
  cases hr

theorem refreshes_sample : Refreshes shippedConfig (sampleCycle .fails) := by
  refine (refreshes_iff sampleCycle_fromFetches).2 fun i cell hi => ⟨⟨?_, ?_, ?_, ?_⟩, ?_⟩
  · intro s h; cases h
  · intro s t h; cases h
  · rintro page ⟨s, t, h, -⟩; cases h
  · rintro page n ⟨s, t, h, -⟩; cases h
  · intro s t h; cases h

end Scgrep

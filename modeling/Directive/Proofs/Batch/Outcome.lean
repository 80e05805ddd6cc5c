import Directive.Run
import Directive.Proofs.Session.Transparent
import Directive.Proofs.Text.Lines

/-!
# Outcomes of a run

A run is to print the descriptors of all its directives, or nothing. Which of the two is known from
what it is given: the configuration, the capacity and the source have to be sound. What is to be
printed is known from the directives and the format alone. Main facts:

* `Options.exists_session_iff`: exactly the sound options give a session.
* `Source.directives_eq_ok_iff`: the directives that a source gives.
* `Invocation.plan_of_sound`, `Invocation.plan_of_not_sound`: what a run is to print.
* `Invocation.outcome_of_sound`: what it prints where everything is taken.
-/

namespace Directive

open Text (ofUtf8? lines utf8)

/-! ## Sound inputs -/

/-- A file holds a configuration with room for a descriptor: it can be read, it is a text, and the
text is a configuration whose capacity is not zero. -/
structure Inputs.HoldsConfig (inputs : Inputs) (path : String) (config : Config) : Prop where
  /-- The file is a configuration in JSON. -/
  json : ∃ bytes text, inputs.configFile path = .ok bytes ∧ ofUtf8? bytes = some text
    ∧ Config.record.read.run (String.ofList text) = .ok config
  /-- There is room for a descriptor. -/
  capacity : 1 ≤ config.cacheCapacity.toNat

/-- Options that a session can be set up from. -/
structure Options.Sound (options : Options) (inputs : Inputs) : Prop where
  /-- The configuration file, if one is given, holds a configuration with room for a descriptor. -/
  config : ∀ path ∈ options.config, ∃ config, inputs.HoldsConfig path config
  /-- The capacity, if one is given, is not zero. -/
  capacity : options.capacity ≠ some 0

/-- The directives of a source that can be read and is a text: those that are given one by one, or
the lines that are not blank. -/
inductive Source.Holds (inputs : Inputs) : Source → List String → Prop
  /-- Directives that are given one by one. -/
  | arguments (directives : List String) : Holds inputs (.arguments directives) directives
  /-- The lines of a file. -/
  | file {path : String} {bytes : List UInt8} {text : List Char}
      (hread : inputs.file path = .ok bytes) (htext : ofUtf8? bytes = some text) :
      Holds inputs (.file path) (directivesOfLines (lines text))
  /-- The lines of the standard input. -/
  | stdin {bytes : List UInt8} {text : List Char}
      (hread : inputs.stdin = .ok bytes) (htext : ofUtf8? bytes = some text) :
      Holds inputs .stdin (directivesOfLines (lines text))

/-! ## Results that are no errors -/

section Except

variable {ε δ α β : Type}

theorem bind_eq_ok_iff {result : Except ε α} {next : α → Except ε β} {value : β} :
    (result >>= next) = .ok value ↔ ∃ first, result = .ok first ∧ next first = .ok value := by
  cases result <;> simp [bind, Except.bind]

theorem map_eq_ok_iff {result : Except ε α} {f : α → β} {value : β} :
    result.map f = .ok value ↔ ∃ first, result = .ok first ∧ f first = value := by
  cases result <;> simp [Except.map]

theorem mapError_eq_ok_iff {result : Except ε α} {f : ε → δ} {value : α} :
    result.mapError f = .ok value ↔ result = .ok value := by
  cases result <;> simp [Except.mapError]

end Except

/-- Contents are decoded if they could be read and spell something. -/
theorem Contents.decode_eq_ok_iff {α : Type} {contents : Contents} {what : String}
    {decode : List UInt8 → Option α} {value : α} :
    contents.decode what decode = .ok value
      ↔ ∃ bytes, contents = .ok bytes ∧ decode bytes = some value := by
  unfold Contents.decode
  cases contents with
  | error error => simp
  | ok bytes => cases hread : decode bytes <;> simp [hread]

/-! ## Sessions -/

namespace Config

/-- A configuration gives a capacity if that is not zero. -/
theorem capacity_eq_ok_iff {config : Config} {capacity : Capacity} :
    config.capacity = .ok capacity ↔ capacity.count = config.cacheCapacity := by
  obtain ⟨count, hpos⟩ := capacity
  unfold Config.capacity Capacity.ofCount?
  by_cases h : 0 < config.cacheCapacity.toNat
  · rw [dif_pos h]
    simp [eq_comm]
  · rw [dif_neg h]
    refine iff_of_false (by simp) ?_
    rintro rfl
    exact h hpos

/-- A text is a configuration that can be used if it is one in JSON and its capacity is not zero. -/
theorem ofJson_eq_ok_iff {text : String} {config : Config} :
    ofJson text = .ok config
      ↔ record.read.run text = .ok config ∧ 1 ≤ config.cacheCapacity.toNat := by
  unfold ofJson
  split
  case h_1 error herror => simp [herror]
  case h_2 read hread =>
    rw [hread, map_eq_ok_iff]
    constructor
    · rintro ⟨capacity, hcapacity, rfl⟩
      rw [capacity_eq_ok_iff] at hcapacity
      exact ⟨rfl, hcapacity ▸ capacity.count_pos⟩
    · rintro ⟨hconfig, hpos⟩
      obtain rfl := Except.ok.inj hconfig
      exact ⟨⟨read.cacheCapacity, hpos⟩, capacity_eq_ok_iff.mpr rfl, rfl⟩

/-- A session with the settings of a configuration starts with an empty cache. -/
theorem session_eq_ok_iff {config : Config} {session : Session} :
    config.session = .ok session
      ↔ ∃ capacity : Capacity, capacity.count = config.cacheCapacity
        ∧ .start (.empty (some capacity)) = session := by
  unfold Config.session
  simp only [map_eq_ok_iff, capacity_eq_ok_iff]
  rfl

end Config

theorem Inputs.config_eq_ok_iff {inputs : Inputs} {path : String} {config : Config} :
    inputs.config path = .ok config ↔ inputs.HoldsConfig path config := by
  unfold Inputs.config
  simp only [bind_eq_ok_iff, Contents.decode_eq_ok_iff, mapError_eq_ok_iff, Config.ofJson_eq_ok_iff]
  constructor
  · rintro ⟨text, ⟨bytes, hread, htext⟩, hjson, hcapacity⟩
    exact ⟨⟨bytes, text, hread, htext, hjson⟩, hcapacity⟩
  · rintro ⟨⟨bytes, text, hread, htext, hjson⟩, hcapacity⟩
    exact ⟨text, ⟨bytes, hread, htext⟩, hjson, hcapacity⟩

namespace Options

variable {options : Options} {inputs : Inputs}

/-- The session that options ask for starts with an empty cache. Its capacity is the one that is
given, or else that of the configuration. The configuration has to have room for a descriptor in
any case. -/
theorem session_eq_ok_iff {session : Session} :
    options.session inputs = .ok session
      ↔ ∃ config, options.config.elim (config = Config.default) (inputs.HoldsConfig · config)
        ∧ ∃ capacity : Capacity, capacity.count = options.capacity.getD config.cacheCapacity
          ∧ .start (.empty (some capacity)) = session := by
  unfold Options.session
  cases options.config with
  | none =>
    simp only [bind_eq_ok_iff, mapError_eq_ok_iff, Config.session_eq_ok_iff]
    refine exists_congr fun config => and_congr ?_ ?_
    · change Except.ok Config.default = .ok config ↔ config = Config.default
      rw [Except.ok.injEq, eq_comm]
    · cases options.capacity <;> exact Iff.rfl
  | some path =>
    simp only [bind_eq_ok_iff, mapError_eq_ok_iff, Config.session_eq_ok_iff]
    refine exists_congr fun config => and_congr Inputs.config_eq_ok_iff ?_
    cases options.capacity <;> exact Iff.rfl

/-- Options give a session exactly if they are sound. -/
theorem exists_session_iff :
    (∃ session, options.session inputs = .ok session) ↔ options.Sound inputs := by
  simp only [session_eq_ok_iff]
  constructor
  · rintro ⟨_, config, hconfig, capacity, hcapacity, -⟩
    refine ⟨fun path hpath => ⟨config, ?_⟩, ?_⟩
    · rw [Option.mem_def.mp hpath] at hconfig
      exact hconfig
    · intro hzero
      have hpos := capacity.count_pos
      rw [hcapacity, hzero] at hpos
      exact Nat.lt_irrefl 0 hpos
  · rintro ⟨hconfig, hcapacity⟩
    -- the configuration has room for a descriptor, whether it is read or the default one
    obtain ⟨config, hread, hroom⟩ : ∃ config : Config,
        options.config.elim (config = Config.default) (inputs.HoldsConfig · config)
          ∧ 0 < config.cacheCapacity.toNat := by
      cases hpath : options.config with
      | none => exact ⟨Config.default, rfl, by decide⟩
      | some path =>
        obtain ⟨config, hholds⟩ := hconfig path (Option.mem_def.mpr hpath)
        exact ⟨config, hholds, hholds.capacity⟩
    have hpos : 0 < (options.capacity.getD config.cacheCapacity).toNat := by
      cases hgiven : options.capacity with
      | none => exact hroom
      | some count =>
        have hne : count ≠ 0 := fun hzero => hcapacity (hgiven.trans (congrArg some hzero))
        refine Nat.pos_of_ne_zero fun hzero => hne ?_
        exact UInt64.toNat_inj.mp hzero
    exact ⟨_, config, hread, ⟨_, hpos⟩, rfl, rfl⟩

end Options

/-! ## Sources -/

namespace Source

variable {source : Source} {inputs : Inputs} {directives : List String}

/-- The directives that are read from a source are those that it holds. -/
theorem directives_eq_ok_iff :
    source.directives inputs = .ok directives ↔ source.Holds inputs directives := by
  cases source with
  | arguments given =>
    constructor
    · intro h
      obtain rfl := Except.ok.inj h
      exact .arguments given
    · rintro ⟨⟩
      rfl
  | file path =>
    simp only [Source.directives, map_eq_ok_iff, Contents.decode_eq_ok_iff]
    constructor
    · rintro ⟨text, ⟨bytes, hread, htext⟩, rfl⟩
      exact .file hread htext
    · rintro (⟨⟩ | ⟨hread, htext⟩)
      exact ⟨_, ⟨_, hread, htext⟩, rfl⟩
  | stdin =>
    -- reading the lines one by one is reading all of them at once
    simp only [Source.directives, map_eq_ok_iff, Contents.decode_eq_ok_iff, Text.linesOfBytes?_eq,
      Option.map_eq_some_iff]
    constructor
    · rintro ⟨_, ⟨bytes, hread, text, htext, rfl⟩, rfl⟩
      exact .stdin hread htext
    · rintro (⟨⟩ | ⟨⟩ | ⟨hread, htext⟩)
      exact ⟨_, ⟨_, hread, _, htext, rfl⟩, rfl⟩

end Source

/-! ## Runs -/

/-- What a session with a faithful cache renders are the descriptors of the directives. -/
theorem Session.renderAll_fst {session : Session} (h : session.cache.Faithful) (format : Format)
    (directives : List String) :
    (session.renderAll format directives).1
      = directives.map fun raw => format.render (Descriptor.parse raw) := by
  change (session.parseAll directives).1.map format.render = _
  rw [Session.parseAll_fst h, List.map_map]
  rfl

namespace Invocation

variable {invocation : Invocation} {inputs : Inputs}

/-- What a run prints for some directives: the descriptor of each of them, with a line feed behind
it. -/
def printed (invocation : Invocation) (directives : List String) : String :=
  unlines (directives.map fun raw => invocation.options.format.render (Descriptor.parse raw))

/-- A batch that is executed gives the descriptors of its directives, although the session may have
them from its cache. -/
theorem execute_eq_ok {session : Session} {directives : List String}
    (hsession : invocation.options.session inputs = .ok session)
    (hdirectives : invocation.source.directives inputs = .ok directives) :
    invocation.execute inputs
      = .ok (directives.map fun raw => invocation.options.format.render (Descriptor.parse raw),
          (session.parseAll directives).2) := by
  obtain ⟨-, -, capacity, -, rfl⟩ := Options.session_eq_ok_iff.mp hsession
  have hfaithful : (Session.start (.empty (some capacity))).cache.Faithful :=
    Cache.faithful_empty (some capacity)
  have hrendered := Session.renderAll_fst hfaithful invocation.options.format directives
  rw [execute, hsession, hdirectives, ← hrendered]
  rfl

/-- With sound options and a source that can be read the descriptors are to be printed. -/
theorem plan_of_sound (hsound : invocation.options.Sound inputs) {directives : List String}
    (hholds : invocation.source.Holds inputs directives) :
    (invocation.plan inputs).lines
        = (directives.map fun raw => invocation.options.format.render (Descriptor.parse raw))
      ∧ (invocation.plan inputs).code = 0 := by
  obtain ⟨session, hsession⟩ := Options.exists_session_iff.mpr hsound
  have hexecute := execute_eq_ok hsession (Source.directives_eq_ok_iff.mpr hholds)
  unfold plan
  rw [hexecute]
  exact ⟨rfl, rfl⟩

/-- With sound options and a source that can be read everything is printed. -/
theorem outcome_of_sound (hsound : invocation.options.Sound inputs) {directives : List String}
    (hholds : invocation.source.Holds inputs directives) :
    (invocation.outcome inputs).code = 0
      ∧ (invocation.outcome inputs).stdout = invocation.printed directives := by
  obtain ⟨hlines, hcode⟩ := plan_of_sound hsound hholds
  exact ⟨hcode, congrArg unlines hlines⟩

end Invocation

end Directive

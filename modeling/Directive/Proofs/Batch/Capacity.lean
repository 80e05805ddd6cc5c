import Directive.Proofs.Batch.Outcome
import Directive.Proofs.Json.Fields
import Directive.Proofs.Json.Naturals
import Directive.Proofs.Session.Counts

/-!
# Capacities that are taken exactly

The capacity in a configuration is a number of any length in a text. It is taken as it stands, or
the configuration is refused: nothing is cut down to 64 bits. The configuration is looked at first,
so that a capacity that is given besides makes up for nothing in it. Main facts:

* `Config.run_iff`: what a text with the digits of a number for its capacity is read as.
* `Config.ofJson_render`: a configuration that can be used is read back.
* `Options.session_of_capacityText`: the sessions and the errors for every number.
-/

namespace Directive

open Json
open Text (utf8)

namespace Config

/-! ## Configurations in JSON -/

theorem exactMembers_record : record.ExactMembers := by
  intro draft name reader hmember
  simp only [record] at hmember
  split_ifs at hmember
  obtain ⟨-, rfl⟩ := Record.once_eq_ok_iff.mp hmember
  exact exact_count.map some

/-- The member that gives the capacity by the digits of a number, with space around the number. -/
def capacityMember (lead trail : List Char) (n : Nat) : Member :=
  ⟨⟨lead, Nat.toDigits 10 n, trail⟩, [], "cacheCapacity".toList, []⟩

variable {space lead trail : List Char} {n : Nat} {config : Config}

theorem spells_capacityMember (lead trail : List Char) (n : Nat) :
    Spells (capacityMember lead trail n).key "cacheCapacity".toList := by
  have hbare : "cacheCapacity".toList.Forall IsBare := by decide
  exact spells_of_bare hbare

theorem formed_capacityMember (hlead : IsSpace lead) (htrail : IsSpace trail) (n : Nat) :
    (capacityMember lead trail n).Formed :=
  ⟨⟨⟨hlead, htrail⟩, isSpace_nil, (spells_capacityMember lead trail n).isBody, isSpace_nil⟩,
    .number (isNumber_toDigits n)⟩

/-- The member leads on to a capacity if its number has 64 bits, and it leads on to nothing else. -/
theorem admits_capacityMember_iff {name : List Char} {next : Option UInt64} :
    record.Admits none (capacityMember lead trail n).entry name next
      ↔ name = "cacheCapacity".toList ∧ ∃ count : UInt64, count.toNat = n ∧ some count = next := by
  have hspells := spells_capacityMember lead trail n
  have hreader : record.member none (String.ofList "cacheCapacity".toList)
      = .ok (some <$> Reader.count) := by
    simp [record, Record.once]
  have hmeans : Means (some <$> Reader.count) (Nat.toDigits 10 n) next
      ↔ ∃ count : UInt64, count.toNat = n ∧ some count = next := by
    simp only [means_map_iff exact_count (.number (isNumber_toDigits n)), means_count_toDigits_iff]
  constructor
  · rintro ⟨hkey, reader, hmember, hnext⟩
    obtain rfl := hkey.unique hspells
    obtain rfl := Except.ok.inj (hreader.symm.trans hmember)
    exact ⟨rfl, hmeans.mp hnext⟩
  · rintro ⟨rfl, hnext⟩
    exact ⟨hspells, _, hreader, hmeans.mpr hnext⟩

/-- A text with the digits of a number for its capacity is read as the configuration with this
capacity. If the number does not fit into 64 bits, there is none. -/
theorem run_iff {text : String} (hspace : IsSpace space) (hlead : IsSpace lead)
    (htrail : IsSpace trail)
    (htext : text.toList = objectText space [capacityMember lead trail n]) :
    record.read.run text = .ok config ↔ config.cacheCapacity.toNat = n := by
  have hmembers : ∀ member ∈ [capacityMember lead trail n], member.Formed := by
    simpa using formed_capacityMember hlead htrail n
  have hobject {left : List Char} :
      Reads record.read ([] ++ (objectText space [capacityMember lead trail n] ++ [])) config left
        ↔ (∃ final, record.Gathers none [(capacityMember lead trail n).entry] final
          ∧ record.finish final = .ok config) ∧ left = [] :=
    reads_object_iff exactMembers_record hspace hmembers isSpace_nil
  rw [List.nil_append, List.append_nil, ← htext] at hobject
  -- the one member leads from the empty draft to the one that the configuration is made of
  rw [run_eq_ok_iff]
  simp only [hobject]
  constructor
  · rintro ⟨_, ⟨⟨final, hgathers, hfinish⟩, -⟩, -⟩
    obtain - | ⟨hadmits, ⟨⟩⟩ := hgathers
    obtain ⟨-, count, hcount, rfl⟩ := admits_capacityMember_iff.mp hadmits
    obtain rfl := Except.ok.inj hfinish
    exact hcount
  · intro hcount
    have hadmits : record.Admits none (capacityMember lead trail n).entry "cacheCapacity".toList
        (some config.cacheCapacity) :=
      admits_capacityMember_iff.mpr ⟨rfl, config.cacheCapacity, hcount, rfl⟩
    exact ⟨[], ⟨⟨_, .cons hadmits (.nil _), rfl⟩, rfl⟩, isSpace_nil⟩

/-! ## Written configurations -/

theorem objectText_capacityMember (space lead trail : List Char) (n : Nat) :
    objectText space [capacityMember lead trail n]
      = '{' :: (space ++ '\x22' :: ("cacheCapacity".toList
        ++ '\x22' :: ':' :: (lead ++ (Nat.toDigits 10 n ++ (trail ++ ['}']))))) := by
  rw [objectText, List.map_singleton, enclosed_cons]
  simp [capacityMember, Member.text, Item.text, following]

/-- A configuration that can be used is read back from its text in every layout that adds nothing
but space. -/
theorem ofJson_render {layout : Json.Layout} (hlayout : layout.Spaced)
    (hcapacity : 1 ≤ config.cacheCapacity.toNat) :
    ofJson (config.toJson.render layout) = .ok config := by
  have hkey : "cacheCapacity".toList.flatMap escape = "cacheCapacity".toList := by decide
  have htext : (config.toJson.render layout).toList = objectText (layout.lineBreak 1)
      [capacityMember layout.gap (layout.lineBreak 0) config.cacheCapacity.toNat] := by
    rw [Writer.render, String.toList_ofList, toJson, Writer.object_eq, List.map_singleton,
      Json.Layout.enclose_cons, Json.Layout.afterItem, Writer.member_append, hkey,
      objectText_capacityMember]
    rfl
  rw [ofJson_eq_ok_iff]
  exact ⟨(run_iff (hlayout.lineBreak 1) hlayout.gap (hlayout.lineBreak 0) htext).mpr rfl,
    hcapacity⟩

/-- The text of a configuration with a number for its capacity. -/
def capacityText (n : Nat) : String :=
  "\x7b\"cacheCapacity\": " ++ n.repr ++ "\x7d"

theorem run_capacityText_iff :
    record.read.run (capacityText n) = .ok config ↔ config.cacheCapacity.toNat = n := by
  have hblank : IsSpace [' '] := by simp [IsSpace, Reader.isSpace]
  have htext : (capacityText n).toList = objectText [] [capacityMember [' '] [] n] := by
    have hopening : "\x7b\"cacheCapacity\": ".toList
        = '{' :: '\x22' :: ("cacheCapacity".toList ++ ['\x22', ':', ' ']) := by decide
    have hclosing : "\x7d".toList = ['}'] := by decide
    unfold capacityText
    rw [objectText_capacityMember, String.toList_append, String.toList_append, Nat.toList_repr,
      hopening, hclosing]
    simp only [List.cons_append, List.append_assoc, List.nil_append]
  exact run_iff isSpace_nil hblank isSpace_nil htext

/-- The text holds a configuration that can be used if its number is not zero and fits. -/
theorem ofJson_capacityText_eq_ok_iff :
    ofJson (capacityText n) = .ok config ↔ config.cacheCapacity.toNat = n ∧ 1 ≤ n := by
  rw [ofJson_eq_ok_iff, run_capacityText_iff]
  exact and_congr_right fun hcount => by rw [hcount]

theorem ofJson_capacityText_zero : ofJson (capacityText 0) = .error .zeroCapacity := by
  have hrun : record.read.run (capacityText 0) = .ok ⟨0⟩ := run_capacityText_iff.mpr rfl
  rw [ofJson, hrun]
  rfl

theorem ofJson_capacityText_of_le (hn : 2 ^ 64 ≤ n) :
    ∃ error, ofJson (capacityText n) = .error (.json error) := by
  cases hrun : record.read.run (capacityText n) with
  | error error => exact ⟨error, by rw [ofJson, hrun]⟩
  | ok config =>
    -- a capacity that has been read has 64 bits
    have hcount := run_capacityText_iff.mp hrun
    have hlt := config.cacheCapacity.toNat_lt
    omega

end Config

/-! ## Sessions -/

/-- The configuration in a file that is a text. -/
theorem Inputs.config_of_text {inputs : Inputs} {path text : String}
    (hfile : inputs.configFile path = .ok (utf8 text.toList)) :
    inputs.config path = (Config.ofJson text).mapError (.invalidConfig path) := by
  rw [Inputs.config, hfile, Contents.decode, Text.ofUtf8?_utf8]
  change (Config.ofJson (String.ofList text.toList)).mapError _ = _
  rw [String.ofList_toList]

namespace Options

variable {options : Options} {inputs : Inputs} {path : String} {n : Nat}

/-- A configuration that is refused is an error, whatever capacity is given besides. -/
theorem session_of_config_error (hpath : options.config = some path) {error : BatchError}
    (herror : inputs.config path = .error error) : options.session inputs = .error error := by
  rw [Options.session, hpath]
  change inputs.config path >>= _ = _
  rw [herror]
  rfl

/-- A capacity of zero that is given besides a configuration is an error of its own. -/
theorem session_of_zero (hpath : options.config = some path) (hgiven : options.capacity = some 0)
    {config : Config} (hconfig : inputs.config path = .ok config) :
    options.session inputs = .error (.refused .zeroCapacity) := by
  rw [Options.session, hpath, hgiven]
  change inputs.config path >>= _ = _
  rw [hconfig]
  rfl

/-- Capacities are taken exactly or refused. If the number in a configuration file is not zero and
fits into 64 bits, and the capacity that is given, where one is, is not zero, then there is a
session, and its cache has the capacity that is given, or else that of the file. A zero in the file
is refused as a capacity, and a number that does not fit is refused as no configuration, in both
cases because of the file and whatever capacity is given. Only when the file is sound a zero that is
given is refused. A configuration that can be used is read back from its text, on one line or
indented. -/
theorem session_of_capacityText (hpath : options.config = some path)
    (hfile : inputs.configFile path = .ok (utf8 (Config.capacityText n).toList)) :
    ((∃ session, options.session inputs = .ok session)
        ↔ (1 ≤ n ∧ n < 2 ^ 64) ∧ ∀ given ∈ options.capacity, 1 ≤ given.toNat)
      ∧ (∀ session, options.session inputs = .ok session →
        session.cache.capacity?.map Capacity.toNat = some (options.capacity.elim n UInt64.toNat))
      ∧ (n = 0 → options.session inputs = .error (.invalidConfig path .zeroCapacity))
      ∧ (2 ^ 64 ≤ n → ∃ error,
        options.session inputs = .error (.invalidConfig path (.json error)))
      ∧ (1 ≤ n → n < 2 ^ 64 → options.capacity = some 0 →
        options.session inputs = .error (.refused .zeroCapacity))
      ∧ ∀ (config : Config) (layout : Json.Layout), 1 ≤ config.cacheCapacity.toNat →
        layout.Spaced → Config.ofJson (config.toJson.render layout) = .ok config := by
  have hconfig := Inputs.config_of_text hfile
  have hholds (config : Config) :
      inputs.HoldsConfig path config ↔ config.cacheCapacity.toNat = n ∧ 1 ≤ n := by
    rw [← Inputs.config_eq_ok_iff, hconfig, mapError_eq_ok_iff,
      Config.ofJson_capacityText_eq_ok_iff]
  refine ⟨?exists_iff, ?capacity, ?zero, ?large, ?given, ?readBack⟩
  case exists_iff =>
    rw [exists_session_iff]
    constructor
    · rintro ⟨hread, hgiven⟩
      obtain ⟨config, hread⟩ := hread path hpath
      obtain ⟨rfl, hpos⟩ := (hholds config).mp hread
      refine ⟨⟨hpos, config.cacheCapacity.toNat_lt⟩, fun given hmem => Nat.pos_of_ne_zero ?_⟩
      intro hzero
      obtain rfl : given = 0 := UInt64.toNat_inj.mp hzero
      exact hgiven hmem
    · rintro ⟨⟨hpos, hlt⟩, hgiven⟩
      refine ⟨fun other hother => ?_, fun hzero => absurd (hgiven 0 hzero) (by decide)⟩
      obtain rfl : path = other := Option.some.inj (hpath.symm.trans hother)
      exact ⟨⟨UInt64.ofNat n⟩, (hholds _).mpr ⟨UInt64.toNat_ofNat_of_lt' hlt, hpos⟩⟩
  case capacity =>
    intro session hsession
    obtain ⟨config, hread, capacity, hcapacity, rfl⟩ := session_eq_ok_iff.mp hsession
    rw [hpath] at hread
    obtain ⟨rfl, -⟩ := (hholds config).mp hread
    change some capacity.count.toNat = _
    rw [hcapacity]
    cases options.capacity <;> rfl
  case zero =>
    rintro rfl
    apply session_of_config_error hpath
    rw [hconfig, Config.ofJson_capacityText_zero]
    rfl
  case large =>
    intro hn
    obtain ⟨error, herror⟩ := Config.ofJson_capacityText_of_le hn
    refine ⟨error, session_of_config_error hpath ?_⟩
    rw [hconfig, herror]
    rfl
  case given =>
    intro hpos hlt hgiven
    have hread : inputs.config path = .ok ⟨UInt64.ofNat n⟩ := by
      rw [Inputs.config_eq_ok_iff, hholds]
      exact ⟨UInt64.toNat_ofNat_of_lt' hlt, hpos⟩
    exact session_of_zero hpath hgiven hread
  case readBack =>
    exact fun config layout hpos hlayout => Config.ofJson_render hlayout hpos

/-- Inputs with a number for the capacity in every configuration file. -/
def limitInputs (n : Nat) : Inputs where
  configFile _ := .ok (utf8 (Config.capacityText n).toList)
  file _ := .error .notFound
  stdin := .ok []

/-- The largest capacity that there is, and the number after it with a capacity besides. -/
theorem session_of_capacityText_limit :
    (∃ session, Options.session ⟨some "c.json", none, .json⟩ (limitInputs (2 ^ 64 - 1))
          = .ok session
        ∧ session.cache.capacity?.map Capacity.toNat = some (2 ^ 64 - 1))
      ∧ ∃ error, Options.session ⟨some "c.json", some 7, .json⟩ (limitInputs (2 ^ 64))
        = .error (.invalidConfig "c.json" (.json error)) := by
  have hlargest : (limitInputs (2 ^ 64 - 1)).configFile "c.json"
      = .ok (utf8 (Config.capacityText (2 ^ 64 - 1)).toList) := rfl
  have hbeyond : (limitInputs (2 ^ 64)).configFile "c.json"
      = .ok (utf8 (Config.capacityText (2 ^ 64)).toList) := rfl
  have hwithout : (Options.mk (some "c.json") none .json).config = some "c.json" := rfl
  have hbesides : (Options.mk (some "c.json") (some 7) .json).config = some "c.json" := rfl
  obtain ⟨hexists, hcapacity, -⟩ := session_of_capacityText hwithout hlargest
  obtain ⟨-, -, -, hlarge, -⟩ := session_of_capacityText hbesides hbeyond
  obtain ⟨session, hsession⟩ := hexists.mpr ⟨by decide, fun _ hnone => nomatch hnone⟩
  exact ⟨⟨session, hsession, hcapacity session hsession⟩, hlarge (Nat.le_refl _)⟩

end Options

end Directive

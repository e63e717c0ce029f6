import Mathlib
import SchemaCodec.Command.Run
import SchemaCodec.Proofs.Command.Lines
import SchemaCodec.Proofs.Registry.Acceptance
import SchemaCodec.Proofs.Registry.Transcoding
import SchemaCodec.Proofs.Text.LooseHex

/-!
# Proofs.Command.HexRoundTrip — what was encoded can be decoded

- `Invocation.Encodes`: the codec and the message that a command that encodes has read.
- `Invocation.encode_ok`: an encoding prints the digits of its message.
- `Invocation.decode_of_ok`: a decoding prints the object of its message.

Both commands read under the limits of the same settings file, and what was read from a value under
limits is read from its bytes under these limits (`Schema.Obeys.decode_encode`).
-/

namespace SchemaCodec

/-! ## Actions -/

namespace Action

variable {log log' : List Event}

theorem note_ok (events : List Event) : note events log = .ok () (log ++ events) := rfl

theorem ofResult_ok_iff {α : Type} {r : Except Fault α} {a : α} :
    ofResult r log = .ok a log' ↔ r = .ok a ∧ log = log' := by
  cases r with
  | ok b =>
    change EStateM.Result.ok b log = _ ↔ _
    simp
  | error e =>
    change EStateM.Result.error _ log = _ ↔ _
    simp

end Action

theorem unlines_singleton (line : String) : unlines [line] = line ++ "\n" := by
  simp [unlines]

/-! ## Names -/

namespace Registry

/-- No name that leads to a type looks like an option. -/
theorem head?_of_get {name : String} {c : Codec} (h : standard.get name = .ok c) :
    name.toList.head? ≠ some '-' := by
  -- An unqualified name is a part of the full one, so the full ones are all there is to look at.
  have hnames : ∀ t ∈ Catalog.types, '-' ∉ t.name.toList := by decide
  intro hhead
  have hmem := List.mem_of_mem_head? hhead
  obtain ⟨t, ht, rfl⟩ := exists_type_of_get h
  rw [standard_eq_ofCodecs] at h
  rcases ((ofCodecs_reflects _).found_of_get h).2 with rfl | rfl
  · exact hnames t ht hmem
  · exact hnames t ht (mem_of_mem_unqualified hmem)

end Registry

namespace Invocation

variable {s s' : Surroundings} {installed : Option Limits} {settings path : Option String}
  {name out : String} {c : Codec} {m : Message} {log log' : List Event} {strict : Bool}

/-! ## Steps -/

theorem codec_ok_iff :
    codec name log = .ok c log' ↔
      Registry.standard.get name = .ok c ∧ log ++ Registry.standard.getLog name = log' := by
  unfold codec
  rw [step_ok_iff]
  constructor
  · rintro ⟨u, log₁, hnote, hget⟩
    cases hnote
    exact Action.ofResult_ok_iff.1 hget
  · intro h
    exact ⟨(), _, rfl, Action.ofResult_ok_iff.2 h⟩

/-- Reading the text makes no remarks. -/
theorem input_ok {text : String} (h : input s path log = .ok text log') :
    log = log' ∧ ∀ log, input s path log = .ok text log := by
  unfold input at h ⊢
  cases path with
  | some path =>
    dsimp only at h ⊢
    cases htext : s.text path with
    | ok text' =>
      rw [htext] at h
      cases h
      exact ⟨rfl, fun _ => rfl⟩
    | error reason =>
      rw [htext] at h
      cases h
  | none =>
    dsimp only at h ⊢
    cases htext : Text.ofUtf8? s.stdin with
    | some text' =>
      rw [htext] at h
      cases h
      exact ⟨rfl, fun _ => rfl⟩
    | none =>
      rw [htext] at h
      cases h

/-- The settings depend on nothing but their file. -/
theorem install_congr (h : ∀ path ∈ settings, s'.file path = s.file path) :
    install s' settings = install s settings := by
  cases settings with
  | none => rfl
  | some path =>
    have htext : s'.text path = s.text path := by
      rw [Surroundings.text, Surroundings.text, h path rfl]
    rw [install, install, htext]

/-! ## Encoding -/

/-- What a command that encodes has read: the codec of its type name, and the message of its text
under the limits of its settings. -/
structure Encodes (s : Surroundings) (settings : Option String) (name : String)
    (path : Option String) (strict : Bool) (c : Codec) (m : Message) : Prop where
  codec : Registry.standard.get name = .ok c
  message : ∃ installed log text v, install s settings [] = .ok installed log ∧
    input s path [] = .ok text [] ∧ Json.parse? text = some v ∧
      c.readJson (if strict then .strict else .loose) (.current installed) v = .ok m

/-- A command that encodes reads one message. -/
theorem Encodes.unique {c' : Codec} {m' : Message} (h : Encodes s settings name path strict c m)
    (h' : Encodes s settings name path strict c' m') : c = c' ∧ m = m' := by
  obtain rfl : c = c' := Except.ok.inj (h.codec.symm.trans h'.codec)
  obtain ⟨installed, log, text, v, hinstall, htext, hv, hm⟩ := h.message
  obtain ⟨installed', log', text', v', hinstall', htext', hv', hm'⟩ := h'.message
  cases hinstall.symm.trans hinstall'
  cases htext.symm.trans htext'
  cases hv.symm.trans hv'
  exact ⟨rfl, Except.ok.inj (hm.symm.trans hm')⟩

/-- Whichever way it is asked for, an encoding writes the message that was read. -/
theorem written_ok_iff {v : Json} {bytes : List UInt8} :
    (if strict then c.build installed v else c.encodeJson (.current installed) v) = .ok bytes ↔
      ∃ m, c.readJson (if strict then .strict else .loose) (.current installed) v = .ok m ∧
        c.encode m = bytes := by
  cases strict with
  | true => exact map_eq_ok_iff
  | false => exact map_eq_ok_iff

theorem encode_ok (h : encode s installed name path strict log = .ok out log') :
    ∃ c text v m, Registry.standard.get name = .ok c ∧ (∀ log, input s path log = .ok text log) ∧
      Json.parse? text = some v ∧
      c.readJson (if strict then .strict else .loose) (.current installed) v = .ok m ∧
      out = Text.hex (c.encode m) ++ "\n" := by
  unfold encode at h
  obtain ⟨c, log₁, hc, h⟩ := step_ok_iff.1 h
  obtain ⟨text, log₂, htext, h⟩ := step_ok_iff.1 h
  obtain ⟨hget, -⟩ := codec_ok_iff.1 hc
  obtain ⟨-, htext⟩ := input_ok htext
  cases hv : Json.parse? text with
  | none =>
    simp only [hv] at h
    cases h
  | some v =>
    simp only [hv] at h
    obtain ⟨bytes, log₃, hbytes, h⟩ := step_ok_iff.1 h
    obtain ⟨hwritten, -⟩ := Action.ofResult_ok_iff.1 hbytes
    cases h
    obtain ⟨m, hm, rfl⟩ := written_ok_iff.1 hwritten
    exact ⟨c, text, v, m, hget, htext, hv, hm, unlines_singleton _⟩

theorem encode_of_ok {text : String} {v : Json} (hc : Registry.standard.get name = .ok c)
    (htext : input s path [] = .ok text []) (hv : Json.parse? text = some v)
    (hm : c.readJson (if strict then .strict else .loose) (.current installed) v = .ok m)
    (log : List Event) :
    ∃ log', encode s installed name path strict log = .ok (Text.hex (c.encode m) ++ "\n") log' := by
  have hcodec : codec name log = .ok c (log ++ Registry.standard.getLog name) :=
    codec_ok_iff.2 ⟨hc, rfl⟩
  have hwritten := written_ok_iff.2 ⟨m, hm, rfl⟩
  refine ⟨log ++ Registry.standard.getLog name, ?_⟩
  rw [encode, bind_of_ok hcodec, bind_of_ok ((input_ok htext).2 _)]
  simp only [hv]
  rw [bind_of_ok (Action.ofResult_ok_iff.2 ⟨hwritten, rfl⟩), ← unlines_singleton]
  rfl

/-! ## Decoding -/

theorem decode_of_ok {payload : String} {bytes : List UInt8}
    (hc : Registry.standard.get name = .ok c) (hbytes : Text.ofHex payload = .ok bytes)
    (hm : c.decode (.current installed) bytes = .ok m) (log : List Event) :
    ∃ log', decode installed name payload false false log =
      .ok ((c.toJson m).compact ++ "\n") log' := by
  obtain ⟨u, houtcome, hmessage⟩ := map_eq_ok_iff.1 hm
  have hcodec : codec name log = .ok c (log ++ Registry.standard.getLog name) :=
    codec_ok_iff.2 ⟨hc, rfl⟩
  refine ⟨log ++ Registry.standard.getLog name ++
    (c.schema.run c.type (.current installed) bytes).cursor.log, ?_⟩
  rw [decode, bind_of_ok hcodec]
  simp only [hbytes, Bool.false_eq_true, if_false]
  rw [bind_of_ok (Action.note_ok _), houtcome, hmessage, ← unlines_singleton]
  rfl

end Invocation

/-! ## Command lines -/

section Lines

open Invocation

variable {filter : Filter} {s s' : Surroundings} {args : List String} {i : Invocation}
  {settings path : Option String} {name : String} {strict : Bool}

/-- A command line succeeds with what its command gives. -/
theorem respond_of_ok {out : String} {log : List Event}
    (hparse : Request.parse? args = some (.run i))
    (h : i.perform s [] = .ok out log) :
    (respond filter s args).exitCode = 0 ∧ (respond filter s args).stdout = out := by
  simp [respond, hparse, h]

theorem exists_of_respond (hparse : Request.parse? args = some (.run i))
    (h : (respond filter s args).exitCode = 0) : ∃ out log, i.perform s [] = .ok out log := by
  cases hperform : i.perform s [] with
  | ok out log => exact ⟨out, log, rfl⟩
  | error e log =>
    rw [respond, hparse] at h
    simp only [hperform] at h
    cases h

/-- A command line that encodes has printed the digits of the message that it has read. -/
theorem encodes_of_respond
    (hparse : Request.parse? args = some (.run ⟨settings, .encode name path strict⟩))
    (h : (respond filter s args).exitCode = 0) :
    ∃ c m, Encodes s settings name path strict c m ∧
      (respond filter s args).stdout = Text.hex (c.encode m) ++ "\n" := by
  obtain ⟨out, log, hperform⟩ := exists_of_respond hparse h
  obtain ⟨installed, log₁, hinstall, hencode⟩ := step_ok_iff.1 hperform
  obtain ⟨c, text, v, m, hc, htext, hv, hm, rfl⟩ := encode_ok hencode
  exact ⟨c, m, ⟨hc, installed, log₁, text, v, hinstall, htext [], hv, hm⟩,
    (respond_of_ok hparse hperform).2⟩

/-- Such a command line succeeds if there is a message to be read. -/
theorem Invocation.Encodes.respond_encode {c : Codec} {m : Message}
    (h : Encodes s settings name path strict c m)
    (hparse : Request.parse? args = some (.run ⟨settings, .encode name path strict⟩))
    (filter : Filter) :
    (respond filter s args).exitCode = 0 ∧
      (respond filter s args).stdout = Text.hex (c.encode m) ++ "\n" := by
  obtain ⟨installed, log, text, v, hinstall, htext, hv, hm⟩ := h.message
  obtain ⟨log', hout⟩ := encode_of_ok h.codec htext hv hm log
  exact respond_of_ok hparse ((bind_of_ok hinstall).trans hout)

/-- What was encoded is decoded under the same settings. -/
theorem Invocation.Encodes.respond_decode {c : Codec} {m : Message} {payload : String}
    (h : Encodes s settings name path strict c m) (hlen : (c.encode m).length < 2 ^ 64)
    (hpayload : Text.ofHex payload = .ok (c.encode m))
    (hfile : ∀ path ∈ settings, s'.file path = s.file path)
    (hparse : Request.parse? args = some (.run ⟨settings, .decode name payload false false⟩)) :
    (respond filter s' args).exitCode = 0 ∧
      (respond filter s' args).stdout = (c.toJson m).compact ++ "\n" := by
  obtain ⟨installed, log, text, v, hinstall, -, -, hm⟩ := h.message
  obtain ⟨t, ht, rfl⟩ := Registry.exists_type_of_get h.codec
  -- What the limits let through once, they let through again.
  have hdecode : (Codec.mk Catalog.standard t).decode (.current installed)
      ((Codec.mk Catalog.standard t).encode m) = .ok m :=
    (Schema.readJson_passes hm).decode_encode Catalog.standard_wellFormed
      (Catalog.standard_wellFormed t ht) hlen
  obtain ⟨log', hout⟩ := decode_of_ok h.codec hpayload hdecode log
  -- The same file gives the same limits, whatever else has changed around the program.
  rw [← install_congr hfile] at hinstall
  exact respond_of_ok hparse ((bind_of_ok hinstall).trans hout)

/-- Encoding and decoding are inverse to each other on the command line. Where encoding a text as a
type has printed digits, these are the digits of the message that was read from the text; and from
whatever is made of them by writing letters in the other case, a mark in front and blanks anywhere,
decoding under the same settings prints the object of that message. Such payloads denote the bytes
that the digits are those of, and a payload denotes nothing exactly if it has an odd number of
digits, or something that is no digit.

No text of `2 ^ 63` characters can be held, so none is printed. -/
theorem hex_round_trip :
    (∀ (filter : Filter) (s : Surroundings) (args : List String) (settings : Option String)
        (name : String) (path : Option String) (strict : Bool),
      Request.parse? args = some (.run ⟨settings, .encode name path strict⟩) →
      (respond filter s args).exitCode = 0 →
      (respond filter s args).stdout.length < 2 ^ 63 →
      ∃ c m, Encodes s settings name path strict c m ∧
        (respond filter s args).stdout = Text.hex (c.encode m) ++ "\n" ∧
        ∀ payload : String,
          Text.SpellsDigits payload.toList (Text.hex (c.encode m)).toList →
          Request.parse? (Request.decodeLine settings name payload) =
              some (.run ⟨settings, .decode name payload false false⟩) ∧
            ∀ (filter' : Filter) (s' : Surroundings) (args' : List String),
              (∀ file ∈ settings, s'.file file = s.file file) →
              Request.parse? args' = some (.run ⟨settings, .decode name payload false false⟩) →
              (respond filter' s' args').exitCode = 0 ∧
                (respond filter' s' args').stdout = (c.toJson m).compact ++ "\n") ∧
    (∀ (bytes : List UInt8) (payload : String),
      Text.SpellsDigits payload.toList (Text.hex bytes).toList → Text.ofHex payload = .ok bytes) ∧
    ∀ payload : String, ∃ digits, Text.DigitsOf payload.toList digits ∧
      ((∃ cause, Text.ofHex payload = .error cause) ↔
        digits.length % 2 = 1 ∨ ∃ c ∈ digits, c ∉ Text.hexLetters) := by
  have hdenotes : ∀ (bytes : List UInt8) (payload : String),
      Text.SpellsDigits payload.toList (Text.hex bytes).toList →
        Text.ofHex payload = .ok bytes := by
    intro bytes payload h
    rw [Text.hex, String.toList_ofList] at h
    exact Text.ofHex_of_spells h
  refine ⟨?_, hdenotes, ?_⟩
  · intro filter s args settings name path strict hparse hexit hlen
    obtain ⟨c, m, hencodes, hout⟩ := encodes_of_respond hparse hexit
    refine ⟨c, m, hencodes, hout, fun payload hpayload => ⟨?_, ?_⟩⟩
    · rw [Text.hex, String.toList_ofList] at hpayload
      have hhyphen : payload.toList.head? ≠ some '-' := fun hhead =>
        Text.hyphen_not_mem hpayload (List.mem_of_mem_head? hhead)
      exact Request.parse?_decodeLine (Request.settings_ne_empty hparse)
        (Registry.head?_of_get hencodes.codec) hhyphen
    · intro filter' s' args' hfile hparse'
      have hbytes : (c.encode m).length < 2 ^ 64 := by
        rw [hout, String.length_append, Text.hex, String.length_ofList,
          Text.length_hexDigits] at hlen
        omega
      exact hencodes.respond_decode hbytes (hdenotes _ _ hpayload) hfile hparse'
  · intro payload
    have hdigits : Text.DigitsOf payload.toList (Text.payloadDigits payload.toList) :=
      Text.digitsOf_iff.2 rfl
    exact ⟨_, hdigits, Text.ofHex_error_iff hdigits⟩

end Lines

namespace Catalog

/-- A user id beyond the safe range, with settings that allow it. -/
def wideUserId : Surroundings where
  stdin := Text.utf8 "\x7b\"userId\": 9007199254741034\x7d"
  file := fun _ => .ok (Text.utf8 "integer_range = \"full\"")

/-- The digits of the user id with letters in the other case, a mark, and blanks inside of both. -/
def wideUserIdPayload : String := "0 x18\u2003AA80 80808080801 0"

theorem encodes_wideUserId :
    Invocation.Encodes wideUserId (some "wide.toml") deleteAccount.name none false
      ⟨standard, deleteAccount⟩ [[], [], [.uint64 9007199254741034], []] := by
  constructor
  · rw [Registry.standard_eq_ofCodecs]
    exact (Registry.ofCodecs_reflects _).get_of_latest? rfl
  · refine ⟨some ⟨.full, 100⟩, [.limitsInstalled ⟨.full, 100⟩, .settingsLoaded "wide.toml"],
      "\x7b\"userId\": 9007199254741034\x7d", .object [("userId", .ofInt 9007199254741034)],
      by cbv, by cbv, by cbv, by cbv⟩

theorem spells_wideUserIdPayload :
    Text.SpellsDigits wideUserIdPayload.toList "18aa80808080808010".toList := by
  refine ⟨['0', 'x'], by decide, "18AA80808080808010".toList, by decide, ?_⟩
  exact Text.spaced_compact wideUserIdPayload.toList

/-- The digits that were printed come back as the object that they were made of. -/
theorem hex_round_trip_wideUserId :
    let line := ["--config=wide.toml", "encode", deleteAccount.name]
    let line' := Request.decodeLine (some "wide.toml") deleteAccount.name wideUserIdPayload
    (respond .standard wideUserId line).stdout = "18aa80808080808010\n" ∧
      (respond .standard wideUserId line').stdout =
        "\x7b\"userId\":\"9007199254741034\"\x7d\n" := by
  intro line line'
  have hparse : Request.parse? line =
      some (.run ⟨some "wide.toml", .encode deleteAccount.name none false⟩) := by cbv
  have hhex : Text.hex ((Codec.mk standard deleteAccount).encode
      [[], [], [.uint64 9007199254741034], []]) = "18aa80808080808010" := by cbv
  have hanswer : (respond .standard wideUserId line).exitCode = 0 ∧
      (respond .standard wideUserId line).stdout = "18aa80808080808010\n" := by
    have hencode := encodes_wideUserId.respond_encode hparse .standard
    rwa [hhex] at hencode
  obtain ⟨c, m, hencodes, -, hdecode⟩ := hex_round_trip.1 .standard wideUserId line _ _ _ _ hparse
    hanswer.1 (by rw [hanswer.2]; decide)
  obtain ⟨rfl, rfl⟩ := encodes_wideUserId.unique hencodes
  rw [hhex] at hdecode
  obtain ⟨hline, hall⟩ := hdecode wideUserIdPayload spells_wideUserIdPayload
  refine ⟨hanswer.2, ?_⟩
  rw [(hall .standard wideUserId line' (fun _ _ => rfl) hline).2]
  cbv

end Catalog
end SchemaCodec

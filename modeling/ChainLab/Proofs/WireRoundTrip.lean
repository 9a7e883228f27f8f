import ChainLab.Action.Wire
import ChainLab.Proofs.JsonReading

/-!
# What goes over the wire comes back

A record is read by looking up its fields under the names it was written with. Everything that is
written as JSON is made of records, lists, texts and numbers, and comes back from its text: actions
as the payloads of messages, authorities, transactions and the parameters of a scenario.
-/

namespace ChainLab

theorem mapM_eq_some {α β : Type} {xs : List α} {f : α → Option β} {g : α → β}
    (h : ∀ x ∈ xs, f x = some (g x)) : xs.mapM f = some (xs.map g) := by
  induction xs with
  | nil => rfl
  | cons x xs ih =>
    rw [List.forall_mem_cons] at h
    rw [List.mapM_cons, h.1, ih h.2]
    rfl

namespace Fields

theorem filter_name {α : Type} {members : List (String × α)}
    (distinct : (members.map (·.1)).Nodup) {m : String × α} (hm : m ∈ members) :
    (members.filter fun member => member.1 = m.1) = [m] := by
  induction members with
  | nil => cases hm
  | cons first rest ih =>
    obtain ⟨fresh, distinct⟩ := List.nodup_cons.mp distinct
    rcases List.mem_cons.mp hm with rfl | hm
    · have none : (rest.filter fun member => member.1 = m.1) = [] := by
        refine List.filter_eq_nil_iff.mpr fun member listed same => fresh ?_
        exact List.mem_map.mpr ⟨member, listed, of_decide_eq_true same⟩
      rw [List.filter_cons, if_pos (decide_eq_true rfl), none]
    · have other : first.1 ≠ m.1 := fun same => fresh (List.mem_map.mpr ⟨m, hm, same.symm⟩)
      rw [List.filter_cons, if_neg (by simpa using other), ih distinct hm]

/-- Under names that differ, each field is found. -/
theorem select?_eq {α : Type} {members : List (String × α)}
    (distinct : (members.map (·.1)).Nodup) :
    select? (members.map (·.1)) members = some (members.map fun member => some member.2) := by
  rw [select?, List.mapM_map]
  refine mapM_eq_some fun m hm => ?_
  simp only [Function.comp_apply, filter_name distinct hm]

end Fields

namespace Json

theorem named?_eq (fields : List (String × Json)) :
    named? (fields.map fun (name, value) => (escape name, value)) = some fields := by
  induction fields with
  | nil => rfl
  | cons field fields ih =>
    rw [List.map_cons, named?, decode?_escape, ih]
    rfl

@[simp] theorem fields?_record {names : List String} {fields : List (String × Json)}
    (missing : Bool) (spelled : fields.map (·.1) = names) (distinct : names.Nodup) :
    fields? missing names (.record fields) = some (fields.map fun field => some field.2) := by
  subst names
  rw [record, fields?, named?_eq, Option.bind_some, Fields.select?_eq distinct]

@[simp] theorem record?_record {names : List String} {fields : List (String × Json)}
    (spelled : fields.map (·.1) = names) (distinct : names.Nodup) :
    record? names (.record fields) = some (fields.map (·.2)) := by
  rw [record?, fields?_record false spelled distinct, Option.bind_some, List.mapM_map]
  exact mapM_eq_some fun _ _ => rfl

theorem printable_record {fields : List (String × Json)}
    (values : ∀ field ∈ fields, Printable field.2) : Printable (.record fields) := by
  refine .object (fun member listed => ?_) fun member listed => ?_
  all_goals obtain ⟨field, inside, rfl⟩ := List.mem_map.mp listed
  · exact quotable_escape field.1
  · exact values field inside

/-- What is written can be printed, and is read as what was written. -/
structure Faithful {α : Type} (write : α → Json) (read : Json → Option α) : Prop where
  printable : ∀ a, Printable (write a)
  read_write : ∀ a, read (write a) = some a

namespace Faithful

variable {α : Type} {write : α → Json} {read : Json → Option α}

theorem parse (h : Faithful write read) (a : α) : (parse? (write a).print).bind read = some a := by
  rw [parse?_print (h.printable a), Option.bind_some, h.read_write]

theorem list (h : Faithful write read) : Faithful (Json.list write) (list? read) where
  printable items := by
    refine .array fun item listed => ?_
    obtain ⟨a, -, rfl⟩ := List.mem_map.mp listed
    exact h.printable a
  read_write items := by
    have each := mapM_eq_some (g := id) fun a (_ : a ∈ items) => h.read_write a
    rw [Json.list, list?, items?, Option.bind_some, List.mapM_map]
    rwa [List.map_id] at each

theorem option (h : Faithful write read) (apart : ∀ a, write a ≠ .null) :
    Faithful (ofOption write) (option? read) where
  printable
    | none => .null
    | some a => h.printable a
  read_write
    | none => rfl
    | some a => by
      rw [ofOption, option?.eq_2 _ _ (apart a), h.read_write]
      rfl

end Faithful

theorem faithful_text : Faithful text text? where
  printable s := .string (quotable_escape s)
  read_write s := decode?_escape s

theorem faithful_bool : Faithful bool bool? where
  printable b := .bool b
  read_write _ := rfl

theorem printable_natural (n : Nat) : Printable (natural n) :=
  .number (fun _ listed => isWordByte_of_isDigit (isDigit_of_mem_digits listed)) (ofWord?_digits n)

theorem faithful_word8 : Faithful (fun n : UInt8 => natural n.toNat) word8? where
  printable n := printable_natural n.toNat
  read_write n := by
    rw [word8?, word?_natural n.toNat_lt, Option.map_some, UInt8.ofNat_toNat]

theorem faithful_word32 : Faithful (fun n : UInt32 => natural n.toNat) word32? where
  printable n := printable_natural n.toNat
  read_write n := by
    rw [word32?, word?_natural n.toNat_lt, Option.map_some, UInt32.ofNat_toNat]

theorem faithful_word64 : Faithful (fun n : UInt64 => natural n.toNat) word64? where
  printable n := printable_natural n.toNat
  read_write n := by
    rw [word64?, word?_natural n.toNat_lt, Option.map_some, UInt64.ofNat_toNat]

theorem faithful_octets : Faithful octets octets? := faithful_word8.list

theorem faithful_textOption : Faithful (ofOption text) (option? text?) :=
  faithful_text.option fun _ => nofun

theorem faithful_seed :
    Faithful (ofOption fun n : UInt64 => natural n.toNat) (option? word64?) :=
  faithful_word64.option fun _ => nofun

@[simp] theorem optional?_some {α : Type} (read : Json → Option α) (value : Json) :
    optional? read (some value) = option? read value := rfl

@[simp] theorem defaulted?_some {α : Type} (default : α) (read : Json → Option α) (value : Json) :
    Fields.defaulted? default read (some value) = read value := rfl

end Json

open Json

/-! ### Authorities -/

theorem PublicKey.faithful : Faithful toJson ofJson? where
  printable key := faithful_text.printable key.hex
  read_write key := by
    rw [ofJson?, toJson, faithful_text.read_write, Option.bind_some, ofHex_hex]
    rfl

theorem Level.faithful : Faithful toJson ofJson? where
  printable level := printable_record (by simp [faithful_text.printable])
  read_write level := by simp [ofJson?, toJson, faithful_text.read_write]

theorem KeyWeight.faithful : Faithful toJson ofJson? where
  printable entry := printable_record (by simp [PublicKey.faithful.printable, printable_natural])
  read_write entry := by
    simp [ofJson?, toJson, PublicKey.faithful.read_write, faithful_word32.read_write]

theorem LevelWeight.faithful : Faithful toJson ofJson? where
  printable entry := printable_record (by simp [Level.faithful.printable, printable_natural])
  read_write entry := by
    simp [ofJson?, toJson, Level.faithful.read_write, faithful_word32.read_write]

theorem Authority.faithful : Faithful toJson ofJson? where
  printable a := printable_record (by
    simp [printable_natural, KeyWeight.faithful.list.printable,
      LevelWeight.faithful.list.printable])
  read_write a := by
    simp [ofJson?, toJson, faithful_word32.read_write, KeyWeight.faithful.list.read_write,
      LevelWeight.faithful.list.read_write]

/-! ### Parameters -/

theorem Amount.faithful : Faithful toJson ofJson? where
  printable amount := faithful_word64.printable amount.units
  read_write amount := by rw [ofJson?, toJson, faithful_word64.read_write, Option.map_some]

theorem Time.faithful : Faithful toJson ofJson? where
  printable t := faithful_word64.printable t.ticks
  read_write t := by rw [ofJson?, toJson, faithful_word64.read_write, Option.map_some]

theorem GenesisAccount.faithful : Faithful toJson ofJson? where
  printable account := printable_record (by
    simp [fieldNames, faithful_text.printable, PublicKey.faithful.printable,
      Amount.faithful.printable])
  read_write account := by
    simp [ofJson?, toJson, fieldNames, faithful_text.read_write, PublicKey.faithful.read_write,
      Amount.faithful.read_write]

theorem ProducerConfig.faithful : Faithful toJson ofJson? where
  printable config := printable_record (by simp [fieldNames, printable_natural])
  read_write config := by simp [ofJson?, toJson, fieldNames, faithful_word32.read_write]

theorem ChainConfig.faithful [Crypto] : Faithful toJson ofJson? where
  printable config := printable_record (by
    simp [fieldNames, faithful_text.printable, Time.faithful.printable, printable_natural,
      GenesisAccount.faithful.printable, ProducerConfig.faithful.printable])
  read_write config := by
    simp [ofJson?, toJson, fieldNames, faithful_text.read_write, Time.faithful.read_write,
      GenesisAccount.faithful.read_write, faithful_word64.read_write, faithful_word32.read_write,
      ProducerConfig.faithful.read_write]

theorem ScenarioConfig.faithful [Crypto] : Faithful toJson ofJson? where
  printable config := printable_record (by
    simp [fieldNames, faithful_seed.printable, Printable.bool, faithful_text.printable,
      Amount.faithful.printable, ChainConfig.faithful.printable])
  read_write config := by
    simp [ofJson?, toJson, fieldNames, faithful_seed.read_write, faithful_bool.read_write,
      faithful_text.read_write, Amount.faithful.read_write, ChainConfig.faithful.read_write]

/-! ### Transactions -/

theorem ofList_toList (levels : LevelSet) :
    Std.ExtTreeSet.ofList levels.toList compare = levels := by
  refine Std.ExtTreeSet.ext_mem fun level => ?_
  rw [Std.ExtTreeSet.mem_ofList, List.contains_iff_mem, Std.ExtTreeSet.mem_toList]

theorem Message.faithful : Faithful toJson ofJson? where
  printable m := printable_record (by
    simp [faithful_text.printable, Level.faithful.list.printable, faithful_octets.printable])
  read_write m := by
    simp [ofJson?, toJson, faithful_text.read_write, Level.faithful.list.read_write,
      faithful_octets.read_write, ofList_toList]

theorem Transaction.faithful : Faithful toJson ofJson? where
  printable t := printable_record (by
    simp [Time.faithful.printable, printable_natural, Message.faithful.list.printable])
  read_write t := by
    simp [ofJson?, toJson, Time.faithful.read_write, faithful_word32.read_write,
      Message.faithful.list.read_write]

/-! ### Actions -/

theorem ActionKind.ofName?_name (kind : ActionKind) : ofName? kind.name = some kind := by
  cases kind <;> decide

namespace Action

theorem printable_toJson (action : Action) : Printable action.toJson := by
  cases action <;> refine printable_record ?_ <;>
    simp [faithful_text.printable, faithful_textOption.printable, faithful_octets.printable,
      Printable.bool, Amount.faithful.printable, Authority.faithful.printable,
      PublicKey.faithful.printable, ProducerConfig.faithful.printable]

theorem ofJson?_toJson (action : Action) : ofJson? action.kind action.toJson = some action := by
  cases action <;>
    simp [ofJson?, kind, toJson, faithful_text.read_write, faithful_textOption.read_write,
      faithful_octets.read_write, faithful_bool.read_write, Amount.faithful.read_write,
      Authority.faithful.read_write, PublicKey.faithful.read_write,
      ProducerConfig.faithful.read_write]

theorem decode?_payload (action : Action) : decode? action.kind action.payload = some action := by
  rw [decode?, payload, parse?_print action.printable_toJson, Option.bind_some, ofJson?_toJson]

end Action

/-- The message that carries an action names the action's kind, and its payload is decoded as the
action. Authorities, transactions and scenario parameters come back from their JSON text. -/
theorem wire_roundTrip [Crypto] :
    (∀ (action : Action) (contract : AccountName) (authorizations : LevelSet),
      let m := action.toMessage contract authorizations
      ActionKind.ofName? m.type = some action.kind ∧
        Action.decode? action.kind m.payload = some action) ∧
    (∀ a : Authority, (parse? a.toJson.print).bind Authority.ofJson? = some a) ∧
    (∀ t : Transaction, (parse? t.toJson.print).bind Transaction.ofJson? = some t) ∧
    ∀ config : ScenarioConfig,
      (parse? config.toJson.print).bind ScenarioConfig.ofJson? = some config := by
  refine ⟨fun action contract authorizations => ⟨?_, ?_⟩, ?_, ?_, ?_⟩
  · exact ActionKind.ofName?_name action.kind
  · exact action.decode?_payload
  · exact Authority.faithful.parse
  · exact Transaction.faithful.parse
  · exact ScenarioConfig.faithful.parse

end ChainLab

import ScopedStyles.Config
import ScopedStyles.Proofs.WrittenJson

/-!
# Configurations as texts

A configuration is written as an object that holds the list of its stages, and a stage as one that
holds its name and, if it has one, its pattern. All of this is read back as it was, whatever the
patterns are, so no two configurations are written the same (`Config.toJson_roundTrip`). Defaults
play no part in it: a list without stages is written too, and so is the default pattern.
-/

namespace ScopedStyles

open Json Json.Reader

namespace StageConfig

/-- What is written for a stage, and the rest. -/
def text (n : Nat) (s : StageConfig) : List Char := prettyChars n s.toJson

/-- What is written for a key and for the string that belongs to it, and the rest. -/
def member (n : Nat) (key value : String) (rest : List Char) : List Char :=
  newline n ++ '"' :: quoted key (':' :: ' ' :: '"' :: quoted value rest)

theorem text_scopeClasses (n : Nat) (pattern : String) (rest : List Char) :
    text n (.scopeClasses pattern) ++ rest =
      '{' :: member (n + 1) "name" scopeClassesName (',' :: member (n + 1) "pattern" pattern
        (newline n ++ '}' :: rest)) := by
  simp [text, toJson, prettyChars, prettyFields, layout_cons, laterRows, member,
    ← stringChars_append]

theorem text_discardEmpty (n : Nat) (rest : List Char) :
    text n .discardEmpty ++ rest =
      '{' :: member (n + 1) "name" discardEmptyName (newline n ++ '}' :: rest) := by
  simp [text, toJson, prettyChars, prettyFields, layout_cons, laterRows, member,
    ← stringChars_append]

theorem opensItem_text (n : Nat) (s : StageConfig) : OpensItem (text n s) := by
  refine ⟨'{', (text n s).tail, ?_, by decide, by decide⟩
  cases s <;> rfl

theorem length_member (n : Nat) (key value : String) (rest : List Char) :
    3 ≤ (member n key value rest).length := by
  simp only [member, newline, quoted, List.length_cons, List.length_append]
  omega

def Kind.name : Kind → String
  | scopeClasses => scopeClassesName
  | discardEmpty => discardEmptyName

theorem kindOf_name : ∀ k : Kind, kindOf k.name = pure k
  | .scopeClasses => by rw [Kind.name, kindOf, if_pos rfl]
  | .discardEmpty => by rw [Kind.name, kindOf, if_neg (by decide), if_pos rfl]

theorem reads_kind (k : Kind) (rest : List Char) :
    Reads kind (' ' :: '"' :: quoted k.name rest) k rest := by
  have hkind : Reads (kindOf k.name) rest k rest := by
    rw [kindOf_name]
    exact reads_pure k rest
  rw [kind]
  exact (reads_blanks_space (by decide) _).bind
    ((reads_skip _ _).bind ((reads_string k.name rest).bind hkind)).placed

theorem reads_nameField (depth : Nat) (k : Kind) (rest : List Char) :
    Reads (field depth false "name") (':' :: ' ' :: '"' :: quoted k.name rest) (.inl k) rest := by
  rw [field, if_pos rfl]
  exact (reads_colon _).bind ((reads_kind k rest).bind (reads_pure _ rest))

theorem reads_otherField (depth : Nat) (kindSeen : Bool) {key : String} (h : key ≠ "name")
    (value : String) (rest : List Char) :
    Reads (field (depth + 1) kindSeen key) (':' :: ' ' :: '"' :: quoted value rest)
      (.inr (key, .string value)) rest := by
  rw [field, if_neg h]
  exact (reads_colon _).bind ((reads_content_string depth value rest).bind (reads_pure _ rest))

theorem reads_stageFields_end (depth fuel : Nat) (found : Option Kind) (n : Nat)
    (rest : List Char) :
    Reads (stageFields depth (fuel + 1) false found) (newline n ++ '}' :: rest) (found, [])
      ('}' :: rest) := by
  rw [stageFields]
  exact (reads_moreKeys_end n rest).bind (reads_pure _ _)

theorem reads_stageFields_pattern (depth fuel : Nat) (found : Option Kind) (n m : Nat)
    (pattern : String) (rest : List Char) :
    Reads (stageFields (depth + 1) (fuel + 2) false found)
      (',' :: member n "pattern" pattern (newline m ++ '}' :: rest))
      (found, [("pattern", .string pattern)]) ('}' :: rest) := by
  rw [stageFields]
  refine (reads_moreKeys_later n _).bind ((reads_skip _ _).bind ((reads_string "pattern" _).bind
    ((reads_otherField depth found.isSome (by decide) pattern _).bind ?_)))
  exact (reads_stageFields_end (depth + 1) fuel found m rest).bind (reads_pure _ _)

theorem reads_stageFields_name {depth fuel : Nat} {k : Kind} {cs rest : List Char}
    {others : Option Kind × List (String × Content)}
    (h : Reads (stageFields depth fuel false (some k)) cs others rest) (n : Nat) :
    Reads (stageFields depth (fuel + 1) true none) (member n "name" k.name cs) others rest := by
  rw [stageFields]
  exact (reads_moreKeys_first n _).bind ((reads_skip _ _).bind ((reads_string "name" _).bind
    ((reads_nameField depth k cs).bind h)))

/-- An object is read as a stage if its fields are and make up the stage. -/
theorem reads_object {depth : Nat} {k : Kind} {fields : List (String × Content)}
    {s : StageConfig} {cs rest : List Char} (hs : ofFields (.inl (k, fields)) = pure s)
    (hlength : 3 ≤ cs.length)
    (h : ∀ fuel, Reads (stageFields (depth + 1) (fuel + 3) true none) cs (some k, fields)
      ('}' :: rest)) :
    Reads (StageConfig.read (depth + 2)) ('{' :: cs) s rest := by
  have hobject : Reads (ofObject (depth + 1)) cs (.inl (k, fields)) ('}' :: rest) := by
    obtain ⟨fuel, hfuel⟩ := Nat.exists_eq_add_of_le' hlength
    rw [ofObject]
    exact (reads_remaining cs).bind ((hfuel ▸ h fuel).bind (reads_pure _ _))
  have hfields : Reads (ofFields (.inl (k, fields))) rest s rest := by
    rw [hs]
    exact reads_pure s rest
  rw [StageConfig.read]
  exact (reads_blanks_here (by decide) cs).bind
    ((hobject.bracket (by omega) (reads_endObject rest) '{').placed.bind hfields)

/-- A stage is read from what is written for it. -/
theorem reads_text (depth n : Nat) (rest : List Char) : ∀ s : StageConfig,
    Reads (StageConfig.read (depth + 2)) (text n s ++ rest) s rest
  | .scopeClasses pattern => by
    have hs : ofFields (.inl (.scopeClasses, [("pattern", .string pattern)])) =
        pure (.scopeClasses pattern) := by
      rw [ofFields, patternField, if_pos rfl]
      rfl
    rw [text_scopeClasses]
    refine reads_object hs (length_member _ _ _ _) fun fuel => ?_
    exact reads_stageFields_name
      (reads_stageFields_pattern depth fuel (some .scopeClasses) (n + 1) n pattern rest) (n + 1)
  | .discardEmpty => by
    have hs : ofFields (.inl (.discardEmpty, [])) = pure .discardEmpty := rfl
    rw [text_discardEmpty]
    refine reads_object hs (length_member _ _ _ _) fun fuel => ?_
    exact reads_stageFields_name
      (reads_stageFields_end (depth + 1) (fuel + 1) (some .discardEmpty) n rest) (n + 1)

end StageConfig

namespace Config

/-- What is written for a list of stages. -/
def stagesText (stages : List StageConfig) : List Char :=
  layout '[' ']' 1 (stages.map (StageConfig.text 2))

/-- What is written between the brackets of a configuration. -/
def fieldsText (c : Config) : List Char :=
  newline 1 ++ '"' :: quoted "stages" (':' :: ' ' :: (stagesText c.stages ++ newline 0 ++ ['}']))

theorem prettyItems_map (n : Nat) : ∀ stages : List StageConfig,
    prettyItems n (stages.map StageConfig.toJson) = stages.map (StageConfig.text n)
  | [] => rfl
  | s :: stages => by
    rw [List.map_cons, prettyItems, prettyItems_map n stages]
    rfl

theorem toList_toJson (c : Config) : c.toJson.toList = '{' :: c.fieldsText := by
  simp [toJson, Value.pretty, prettyChars, prettyFields, layout_cons, laterRows,
    ← stringChars_append, prettyItems_map, stagesText, fieldsText]

theorem reads_stageList (stages : List StageConfig) (depth : Nat) (rest : List Char) :
    Reads (stageList (depth + 3)) (' ' :: (stagesText stages ++ rest)) stages rest := by
  have hblanks : Reads blanks (' ' :: (stagesText stages ++ rest)) (some '[')
      (stagesText stages ++ rest) := by
    obtain ⟨behind, h⟩ := layout_eq_cons '[' ']' 1 (stages.map (StageConfig.text 2))
    rw [stagesText, h]
    exact reads_blanks_space (by decide) _
  -- each stage takes a character at least, and so many may still be read
  have hlength : stages.length < (stagesText stages ++ rest).length := by
    have := length_lt_layout '[' ']' 1 (stages.map (StageConfig.text 2))
    rw [List.length_map] at this
    rw [List.length_append, stagesText]
    omega
  have hstages : ∀ s ∈ stages, OpensItem (s.text 2) ∧
      ∀ rest, Reads (StageConfig.read (depth + 2)) (s.text 2 ++ rest) s rest :=
    fun s _ => ⟨s.opensItem_text 2, fun rest => StageConfig.reads_text depth 2 rest s⟩
  rw [stageList]
  exact hblanks.bind
    ((reads_remaining _).bind (reads_list (by omega) hstages hlength 1 rest).placed)

theorem reads_configFields (c : Config) (depth fuel : Nat) :
    Reads (configFields (depth + 3) (fuel + 2) true none) c.fieldsText (some c.stages) ['}'] := by
  rw [configFields, fieldsText, List.append_assoc]
  refine (reads_moreKeys_first 1 _).bind ((reads_skip _ _).bind ((reads_string "stages" _).bind
    ((reads_colon _).bind ((reads_stageList c.stages depth _).bind ?_))))
  rw [configFields]
  exact (reads_moreKeys_end 0 []).bind (reads_pure _ _)

theorem reads_toJson (c : Config) : Reads Config.read c.toJson.toList c [] := by
  obtain ⟨fuel, hfuel⟩ : ∃ k, c.fieldsText.length = k + 2 :=
    Nat.exists_eq_add_of_le' (by simp [fieldsText, newline])
  have hfields : Reads (configFields (maxDepth - 1) c.fieldsText.length true none) c.fieldsText
      (some c.stages) ['}'] := by
    rw [hfuel]
    exact reads_configFields c (maxDepth - 4) fuel
  rw [toList_toJson, Config.read]
  refine (reads_blanks_here (by decide) _).bind (Reads.placed (.bracket (by decide) ?_
    (reads_endObject []) '{'))
  exact (reads_remaining c.fieldsText).bind (hfields.bind (reads_pure c _))

/-- What is written for a configuration is read as this configuration, whatever its patterns are, so
different configurations are written differently. -/
theorem toJson_roundTrip :
    (∀ c : Config, ofJson c.toJson = .ok c) ∧ Function.Injective toJson := by
  have hread (c : Config) : ofJson c.toJson = .ok c := run_of_reads c.reads_toJson
  refine ⟨hread, fun c d h => ?_⟩
  exact Except.ok.inj ((hread c).symm.trans ((congrArg ofJson h).trans (hread d)))

/-- A list without stages is written, and only one that is left out is taken for the default. -/
example :
    toJson ⟨[]⟩ = "\x7b\n  \"stages\": []\n\x7d" ∧
      (ofJson "\x7b\x7d").toOption = some default := by
  decide +kernel

end Config

end ScopedStyles

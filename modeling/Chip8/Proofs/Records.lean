import Chip8.Machine.Record
import Chip8.Proofs.Numeral

/-!
# Reading the log back

A host sees the records of a log as lines, each with a level and a text. Whoever reads these texts
word by word can keep account of the calls: the address behind `from` is put down at a call, and the
newest one is struck out at a return, which has to name it.

* `words_of_intercalate`: words with a blank between them fall apart again.
* `replayText_text`: what the text of a record says about the calls.
* `replay_textsAt_debug`: the account of a whole log.
* `numbers_text_fetched`, `head?_numbers_text_failed`: the numbers in the texts of a fetch and of a
  failure.
-/

namespace Chip8

open Numeral

/-- A record as the host sees it: its level and its text. -/
def Record.printed (r : Record) : Record.Level × String :=
  (r.level, r.text)

/-- The texts at a level, in order. -/
def textsAt (level : Record.Level) (lines : List (Record.Level × String)) : List String :=
  (lines.filter fun l => l.1 = level).map Prod.snd

/-- The words of a text. -/
def words (text : String) : List String :=
  (text.toList.splitOn ' ').map String.ofList

/-- Keeps account of the calls by a text. A text `call N from P` puts down `P`, and a text
`return to P` strikes out the newest address. There is no account if an address cannot be read, and
none after a return without a call or to any other address than the newest one. -/
def replayText (calls : List Nat) (text : String) : Option (List Nat) :=
  match words text with
  | ["call", target, "from", address] =>
    match numbers 16 target.toList, numbers 16 address.toList with
    | [_], [pc] => some (pc :: calls)
    | _, _ => none
  | ["return", "to", address] =>
    match numbers 16 address.toList, calls with
    | [pc], newest :: rest => if pc = newest then some rest else none
    | _, _ => none
  | _ => some calls

/-- **Keeps account of the calls** by texts, one after the other. -/
def replay (calls : List Nat) (texts : List String) : Option (List Nat) :=
  texts.foldlM replayText calls

/-- What a record says about the calls. -/
def Record.playBack (calls : List Nat) : Record → Option (List Nat)
  | called _ pc => some (pc :: calls)
  | returned pc =>
    match calls with
    | [] => none
    | newest :: rest => if pc = newest then some rest else none
  | fetched _ _ | failed _ _ | loaded _ | toneEnded | keyTaken _ | unknownKey _ => some calls

/-- **Plays a log back**, from the addresses that were put down before it. -/
def playBack (calls : List Nat) (log : List Record) : Option (List Nat) :=
  log.foldlM Record.playBack calls

/-- The records of a level, in order. -/
def recordsAt (level : Record.Level) (log : List Record) : List Record :=
  log.filter fun r => r.level = level

section Levels

theorem recordsAt_append (level : Record.Level) (l l' : List Record) :
    recordsAt level (l ++ l') = recordsAt level l ++ recordsAt level l' :=
  List.filter_append ..

theorem recordsAt_of_forall {level level' : Record.Level} {log : List Record}
    (h : ∀ r ∈ log, r.level = level') :
    recordsAt level log = if level' = level then log else [] := by
  split
  · rename_i heq
    exact List.filter_eq_self.2 fun r hr => by simp [h r hr, heq]
  · rename_i hne
    exact List.filter_eq_nil_iff.2 fun r hr => by simp [h r hr, hne]

theorem textsAt_printed (level : Record.Level) (log : List Record) :
    textsAt level (log.map Record.printed) = (recordsAt level log).map Record.text := by
  rw [textsAt, recordsAt, List.filter_map, List.map_map]
  rfl

end Levels

section PlayBack

variable {calls calls' : List Nat} {r : Record} {log log' : List Record}

theorem playBack_append (h : playBack calls log = some calls') :
    playBack calls (log ++ log') = playBack calls' log' := by
  rw [playBack, List.foldlM_append]
  exact congrArg (· >>= fun c => playBack c log') h

theorem playBack_cons_of_ne_debug (h : r.level ≠ .debug) :
    playBack calls (r :: log) = playBack calls log := by
  cases r with
  | fetched | failed | unknownKey => rfl
  | called | returned | loaded | toneEnded | keyTaken => exact absurd rfl h

/-- Only the records at level `debug` are played back. -/
theorem playBack_recordsAt_debug (calls : List Nat) (log : List Record) :
    playBack calls (recordsAt .debug log) = playBack calls log := by
  induction log generalizing calls with
  | nil => rfl
  | cons r log ih =>
    rw [recordsAt, List.filter_cons]
    by_cases h : r.level = .debug
    · rw [if_pos (decide_eq_true h)]
      exact congrArg (r.playBack calls >>= ·) (funext ih)
    · rw [if_neg (mt of_decide_eq_true h), playBack_cons_of_ne_debug h]
      exact ih calls

end PlayBack

section Words

/-- **Words with a blank between them** fall apart again. -/
theorem words_of_intercalate {text : String} {ws : List String}
    (htext : text.toList = [' '].intercalate (ws.map String.toList)) (hne : ws ≠ [])
    (h : ∀ w ∈ ws, ' ' ∉ w.toList) : words text = ws := by
  have hblank : ∀ s ∈ ws.map String.toList, ' ' ∉ s := by
    intro s hs
    obtain ⟨w, hw, rfl⟩ := List.mem_map.1 hs
    exact h w hw
  rw [words, htext, List.splitOn_intercalate ' ' hblank (by simpa using hne), List.map_map]
  exact List.map_id'' (fun w => String.ofList_toList) ws

theorem blank_not_mem_hex (width n : Nat) : ' ' ∉ (hex width n).toList :=
  not_mem_hex (by decide) (by decide) width n

theorem blank_not_mem_decimal (n : Nat) : ' ' ∉ (decimal n).toList :=
  not_mem_decimal (by decide) n

end Words

section Texts

variable (calls : List Nat)

theorem words_text_called (target pc : Nat) :
    words (Record.called target pc).text = ["call", hex 4 target, "from", hex 4 pc] := by
  refine words_of_intercalate ?_ (List.cons_ne_nil _ _) ?_
  · show ("call " ++ hex 4 target ++ " from " ++ hex 4 pc).toList = _
    simp
  · simp only [List.forall_mem_cons]
    exact ⟨by decide, blank_not_mem_hex 4 target, by decide, blank_not_mem_hex 4 pc, nofun⟩

theorem words_text_returned (pc : Nat) :
    words (Record.returned pc).text = ["return", "to", hex 4 pc] := by
  refine words_of_intercalate ?_ (List.cons_ne_nil _ _) ?_
  · show ("return to " ++ hex 4 pc).toList = _
    simp
  · simp only [List.forall_mem_cons]
    exact ⟨by decide, by decide, blank_not_mem_hex 4 pc, nofun⟩

theorem words_text_loaded (count : Nat) :
    words (Record.loaded count).text = ["loaded", "program", "of", decimal count, "bytes"] := by
  refine words_of_intercalate ?_ (List.cons_ne_nil _ _) ?_
  · show ("loaded program of " ++ decimal count ++ " bytes").toList = _
    simp
  · simp only [List.forall_mem_cons]
    exact ⟨by decide, by decide, by decide, blank_not_mem_decimal count, by decide, nofun⟩

theorem words_text_keyTaken (key : Nat) :
    words (Record.keyTaken key).text = ["key", hex 1 key, "pressed", "while", "waiting"] := by
  refine words_of_intercalate ?_ (List.cons_ne_nil _ _) ?_
  · show ("key " ++ hex 1 key ++ " pressed while waiting").toList = _
    simp
  · simp only [List.forall_mem_cons]
    exact ⟨by decide, blank_not_mem_hex 1 key, by decide, by decide, by decide, nofun⟩

theorem words_text_toneEnded : words Record.toneEnded.text = ["sound", "timer", "elapsed"] := by
  decide

/-- **What the text of a record says** about the calls is what happened. -/
theorem replayText_text {r : Record} (h : r.level = .debug) :
    replayText calls r.text = r.playBack calls := by
  cases r with
  | called target pc =>
    rw [replayText, words_text_called]
    simp only [numbers_hex]
    rfl
  | returned pc =>
    rw [replayText, words_text_returned]
    simp only [numbers_hex]
    cases calls <;> rfl
  -- the other texts begin with other words
  | loaded count =>
    rw [replayText, words_text_loaded]
    simp [Record.playBack]
  | keyTaken key =>
    rw [replayText, words_text_keyTaken]
    simp [Record.playBack]
  | toneEnded =>
    rw [replayText, words_text_toneEnded]
    simp [Record.playBack]
  | fetched | failed | unknownKey => cases h

/-- **The account of a log** by its texts at level `debug` is the one by its records. -/
theorem replay_textsAt_debug (log : List Record) :
    replay calls (textsAt .debug (log.map Record.printed)) = playBack calls log := by
  rw [textsAt_printed, ← playBack_recordsAt_debug]
  have hlevel : ∀ r ∈ recordsAt .debug log, r.level = .debug := fun r hr =>
    of_decide_eq_true (List.mem_filter.1 hr).2
  generalize recordsAt .debug log = records at hlevel
  induction records generalizing calls with
  | nil => rfl
  | cons r records ih =>
    obtain ⟨hr, hrecords⟩ := List.forall_mem_cons.1 hlevel
    rw [List.map_cons, replay, playBack, List.foldlM_cons, List.foldlM_cons,
      replayText_text calls hr]
    exact congrArg (r.playBack calls >>= ·) (funext fun c => ih c hrecords)

/-- **The text of a fetch** has the address and the word. -/
theorem numbers_text_fetched (pc : Nat) (word : Word) :
    numbers 16 (Record.fetched pc word).text.toList = [pc, word.toNat] := by
  show numbers 16 (hex 4 pc ++ ": " ++ hex 4 word.toNat).toList = _
  rw [String.toList_append, String.toList_append, List.append_assoc,
    numbers_append 16 (by decide), numbers_hex, numbers_hex]
  rfl

/-- **The text of a failure** has the address before all other numbers. -/
theorem head?_numbers_text_failed (pc : Nat) (fault : Fault) :
    (numbers 16 (Record.failed pc fault).text.toList).head? = some pc := by
  have hplain : Plain "instruction at ".toList := by decide
  show (numbers 16 ("instruction at " ++ hex 4 pc ++ " failed: " ++ fault.message).toList).head? = _
  simp only [String.toList_append, List.append_assoc]
  rw [numbers_plain_append 16 hplain, numbers_append 16 (by decide), numbers_hex]
  rfl

end Texts

end Chip8

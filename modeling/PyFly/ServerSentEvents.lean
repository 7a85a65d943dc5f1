import Mathlib.Data.Int.Notation
import PyFly.Library.TextLines

/-!
# Server-sent events

`format_sse_event` writes the fields of an event as lines.  A client reads them
line by line, where `\r` and `\r\n` end a line as well; `str.splitlines` cuts
the payload at more characters than that.
-/

namespace PyFly.Web

open Library List

/-! ## Formatting -/

/-- Where `str.splitlines` cuts. -/
def isLineBreak (c : Char) : Bool :=
  ['\n', '\r', '\x0b', '\x0c', '\x1c', '\x1d', '\x1e', '\u0085', '\u2028', '\u2029'].contains c

structure JsonText (M J : Type) where
  modelDumpJson : M → List Char
  dumps : J → List Char
  dumps_ne_nil : ∀ data, dumps data ≠ []
  dumps_printable : ∀ data, ∀ c ∈ dumps data, ' ' ≤ c ∧ c ≤ '~'

inductive SsePayload (M J : Type)
  | model (data : M)
  | collection (data : J)
  | text (data : List Char)

structure SseCall (M J : Type) where
  data : SsePayload M J
  event : Option (List Char)
  id : Option (List Char)
  retry : Option ℤ

/-- `str(value)` of an integer. -/
def strInt : ℤ → List Char
  | .ofNat n => Nat.toDigits 10 n
  | .negSucc n => '-' :: Nat.toDigits 10 (n + 1)

variable {M J : Type} (json : JsonText M J)

def SsePayload.serialise : SsePayload M J → List Char
  | .model data => json.modelDumpJson data
  | .collection data => json.dumps data
  | .text data => data

/-- The lines in front of the last two empty ones. -/
def SseCall.fieldLines (call : SseCall M J) : List (List Char) :=
  (call.id.elim [] fun id => [['i', 'd'] ++ ':' :: ' ' :: id]) ++
    (call.event.elim [] fun event =>
      [['e', 'v', 'e', 'n', 't'] ++ ':' :: ' ' :: event]) ++
    (call.retry.elim [] fun retry =>
      [['r', 'e', 't', 'r', 'y'] ++ ':' :: ' ' :: strInt retry]) ++
    (linesOf isLineBreak (call.data.serialise json)).map
      fun line => ['d', 'a', 't', 'a'] ++ ':' :: ' ' :: line

def formatSseEvent (call : SseCall M J) : List Char :=
  ['\n'].intercalate (call.fieldLines json ++ [[], []])

/-! ## Parsing -/

structure SseEvent where
  type : List Char
  data : List Char
  lastEventId : List Char
  retry : Option ℤ
deriving DecidableEq

structure SseParser where
  data : List Char
  eventType : List Char
  lastEventId : List Char
  retry : Option ℤ
  events : List SseEvent

namespace SseParser

def start : SseParser := ⟨[], [], [], none, []⟩

def message : List Char := ['m', 'e', 's', 's', 'a', 'g', 'e']

/-- The data buffer ends in a line feed, which is removed. -/
def dispatch (parser : SseParser) : SseParser :=
  if parser.data = [] then { parser with eventType := [] }
  else
    { parser with
      data := []
      eventType := []
      events := parser.events ++
        [{ type := if parser.eventType = [] then message else parser.eventType
           data := parser.data.dropLast
           lastEventId := parser.lastEventId
           retry := parser.retry }] }

def processField (parser : SseParser) (name value : List Char) : SseParser :=
  if name = ['e', 'v', 'e', 'n', 't'] then { parser with eventType := value }
  else if name = ['d', 'a', 't', 'a'] then
    { parser with data := parser.data ++ value ++ ['\n'] }
  else if name = ['i', 'd'] then
    if value.contains '\x00' then parser
    else { parser with lastEventId := value }
  else if name = ['r', 'e', 't', 'r', 'y'] then
    if value ≠ [] ∧ value.all Char.isDigit then
      { parser with retry := some (Nat.ofDigitChars 10 value 0) }
    else parser
  else parser

/-- What follows the first colon, without one blank behind it. -/
def valueOf (line : List Char) : List Char :=
  if (line.dropWhile (· ≠ ':')).tail.head? = some ' ' then
    (line.dropWhile (· ≠ ':')).tail.tail
  else (line.dropWhile (· ≠ ':')).tail

/-- A comment is a field without a name. -/
def processLine (parser : SseParser) (line : List Char) : SseParser :=
  if line = [] then parser.dispatch
  else parser.processField (line.takeWhile (· ≠ ':')) (valueOf line)

def parse (stream : List Char) : List SseEvent :=
  (((unifyBreaks stream).splitOn '\n').dropLast.foldl processLine start).events

end SseParser

/-! ## What is delivered -/

def SseCall.expected (lastEventId : List Char) (retry : Option ℤ)
    (call : SseCall M J) : SseEvent where
  type := call.event.getD SseParser.message
  data := unifyBreaks (call.data.serialise json)
  lastEventId := call.id.getD lastEventId
  retry := call.retry.or retry

def delivered (lastEventId : List Char) (retry : Option ℤ) : List (SseCall M J) → List SseEvent
  | [] => []
  | call :: calls =>
    call.expected json lastEventId retry ::
      delivered (call.id.getD lastEventId) (call.retry.or retry) calls

/-- A text has no line breaks but `\r`, `\n` and `\r\n`, is not empty and does
not end in a line break. -/
def SsePayload.Sound : SsePayload M J → Prop
  | .collection _ => True
  | payload => payload.serialise json ≠ [] ∧
      (∀ c ∈ payload.serialise json, isLineBreak c = true → c = '\r' ∨ c = '\n') ∧
      ∀ c ∈ (payload.serialise json).getLast?, c ≠ '\r' ∧ c ≠ '\n'

/-- A name and an identifier on one line, and a time which is not negative. -/
structure SseCall.Plain (call : SseCall M J) : Prop where
  event_ne_nil : ∀ event ∈ call.event, event ≠ []
  event_line : ∀ event ∈ call.event, ∀ c ∈ event, c ≠ '\r' ∧ c ≠ '\n'
  id_line : ∀ id ∈ call.id, ∀ c ∈ id, c ≠ '\r' ∧ c ≠ '\n' ∧ c ≠ '\x00'
  retry_nonneg : ∀ retry ∈ call.retry, 0 ≤ retry

/-! ## What a parser can dispatch -/

structure SseEvent.Clean (event : SseEvent) : Prop where
  type_ne_nil : event.type ≠ []
  type_line : ∀ c ∈ event.type, c ≠ '\r' ∧ c ≠ '\n'
  id_line : ∀ c ∈ event.lastEventId, c ≠ '\r' ∧ c ≠ '\n' ∧ c ≠ '\x00'
  retry_nonneg : ∀ retry ∈ event.retry, 0 ≤ retry

namespace SseParser

structure Clean (parser : SseParser) : Prop where
  type_line : ∀ c ∈ parser.eventType, c ≠ '\r' ∧ c ≠ '\n'
  id_line : ∀ c ∈ parser.lastEventId, c ≠ '\r' ∧ c ≠ '\n' ∧ c ≠ '\x00'
  retry_nonneg : ∀ retry ∈ parser.retry, 0 ≤ retry
  events : ∀ event ∈ parser.events, event.Clean

variable {parser : SseParser} {line value : List Char}

theorem valueOf_subset : valueOf line ⊆ line := by
  have hrest : (line.dropWhile (· ≠ ':')).tail ⊆ line :=
    fun c hc => dropWhile_subset _ (mem_of_mem_tail hc)
  unfold valueOf
  split
  · exact fun c hc => hrest (mem_of_mem_tail hc)
  · exact hrest

theorem Clean.dispatch (h : parser.Clean) : parser.dispatch.Clean := by
  unfold SseParser.dispatch
  split
  · exact ⟨by simp, h.id_line, h.retry_nonneg, h.events⟩
  · refine ⟨by simp, h.id_line, h.retry_nonneg, fun event hevent => ?_⟩
    rcases mem_append.mp hevent with hold | hnew
    · exact h.events event hold
    · rw [mem_singleton.mp hnew]
      refine ⟨?_, ?_, h.id_line, h.retry_nonneg⟩
      · dsimp only
        split
        · simp [message]
        · assumption
      · dsimp only
        split
        · simp [message]
        · exact h.type_line

theorem Clean.processLine (h : parser.Clean) (hline : ∀ c ∈ line, c ≠ '\r' ∧ c ≠ '\n') :
    (parser.processLine line).Clean := by
  have hvalue : ∀ c ∈ valueOf line, c ≠ '\r' ∧ c ≠ '\n' :=
    fun c hc => hline c (valueOf_subset hc)
  unfold SseParser.processLine
  split
  · exact h.dispatch
  · unfold processField
    split_ifs with _ _ _ hnull _ hdigits
    · exact ⟨hvalue, h.id_line, h.retry_nonneg, h.events⟩
    · exact ⟨h.type_line, h.id_line, h.retry_nonneg, h.events⟩
    · exact h
    · refine ⟨h.type_line, fun c hc => ⟨(hvalue c hc).1, (hvalue c hc).2, ?_⟩,
        h.retry_nonneg, h.events⟩
      rintro rfl
      exact hnull (contains_iff_mem.mpr hc)
    · refine ⟨h.type_line, h.id_line, ?_, h.events⟩
      intro retry hretry
      rw [← Option.some.inj hretry]
      exact Int.natCast_nonneg _
    · exact h
    · exact h

theorem clean_parse {stream : List Char} : ∀ event ∈ parse stream, event.Clean := by
  have hlines : ∀ line ∈ ((unifyBreaks stream).splitOn '\n').dropLast,
      ∀ c ∈ line, c ≠ '\r' ∧ c ≠ '\n' := by
    intro line hline c hc
    have hmem := dropLast_subset _ hline
    rw [splitOn_eq_splitOnP] at hmem
    obtain ⟨htext, hbreak⟩ := of_mem_splitOnP hmem hc
    refine ⟨?_, by simpa using hbreak⟩
    rintro rfl
    exact return_notMem_unifyFrom false htext
  have hstart : start.Clean := ⟨by simp [start], by simp [start],
    by simp [start], by simp [start]⟩
  unfold parse
  generalize ((unifyBreaks stream).splitOn '\n').dropLast = lines at hlines
  generalize start = parser at hstart
  induction lines generalizing parser with
  | nil => exact hstart.events
  | cons line lines ih =>
    exact ih (fun line hline => hlines line (mem_cons_of_mem _ hline)) (parser.processLine line)
      (hstart.processLine (hlines line mem_cons_self))

end SseParser

variable {json} {call : SseCall M J} {calls : List (SseCall M J)}
  {lastEventId : List Char} {retry : Option ℤ}

theorem SseCall.plain_of_clean (h : (call.expected json lastEventId retry).Clean) :
    call.Plain := by
  obtain ⟨htype, hline, hid, hretry⟩ := h
  unfold SseCall.expected at htype hline hid hretry
  refine ⟨fun event hevent => ?_, fun event hevent => ?_, fun id hcall => ?_,
    fun time htime => ?_⟩
  · rwa [Option.mem_def.mp hevent] at htype
  · rwa [Option.mem_def.mp hevent] at hline
  · rwa [Option.mem_def.mp hcall] at hid
  · rw [Option.mem_def.mp htime] at hretry
    exact hretry time rfl

theorem plain_of_delivered (h : ∀ event ∈ delivered json lastEventId retry calls, event.Clean) :
    ∀ call ∈ calls, call.Plain := by
  induction calls generalizing lastEventId retry with
  | nil => simp
  | cons first calls ih =>
    intro call hcall
    rcases mem_cons.mp hcall with rfl | hcall
    · exact SseCall.plain_of_clean (h _ mem_cons_self)
    · exact ih (fun event hevent => h event (mem_cons_of_mem _ hevent)) call hcall

/-! ## What a parser makes of a call -/

def SseCall.dispatched (json : JsonText M J) (lastEventId : List Char)
    (retry : Option ℤ) (call : SseCall M J) : List SseEvent :=
  if call.data.serialise json = [] then []
  else
    [{ call.expected json lastEventId retry with
       data := ['\n'].intercalate
        (linesOf isLineBreak (call.data.serialise json)) }]

def dispatchedAll (json : JsonText M J) (lastEventId : List Char)
    (retry : Option ℤ) : List (SseCall M J) → List SseEvent
  | [] => []
  | call :: calls =>
    call.dispatched json lastEventId retry ++
      dispatchedAll json (call.id.getD lastEventId) (call.retry.or retry) calls

namespace SseParser

variable {parser : SseParser}

theorem processLine_field {name : List Char} (hname : ':' ∉ name) (value : List Char) :
    parser.processLine (name ++ ':' :: ' ' :: value) = parser.processField name value := by
  have hpos : ∀ c ∈ name, decide (c ≠ ':') = true := by
    intro c hc
    simpa using fun heq : c = ':' => hname (heq ▸ hc)
  rw [processLine, if_neg (by simp), valueOf,
    takeWhile_append_of_pos hpos, dropWhile_append_of_pos hpos]
  simp

theorem foldl_data (lines : List (List Char)) :
    (lines.map fun line => ['d', 'a', 't', 'a'] ++ ':' :: ' ' :: line).foldl
        processLine parser =
      { parser with data := parser.data ++ lines.flatMap (· ++ ['\n']) } := by
  induction lines generalizing parser with
  | nil => simp
  | cons line lines ih =>
    rw [map_cons, foldl_cons, processLine_field (by decide), ih]
    simp [processField]

theorem dispatch_lines (lines : List (List Char)) (type : List Char) (events : List SseEvent) :
    SseParser.dispatch ⟨lines.flatMap (· ++ ['\n']), type, lastEventId, retry, events⟩ =
      ⟨[], [], lastEventId, retry, events ++ if lines = [] then [] else
        [⟨if type = [] then message else type, ['\n'].intercalate lines,
          lastEventId, retry⟩]⟩ := by
  by_cases hlines : lines = []
  · simp [dispatch, hlines]
  · have hdata : lines.flatMap (· ++ ['\n']) ≠ [] := by
      rw [← intercalate_concat_nil, intercalate_append_nil hlines]
      simp
    rw [dispatch, if_neg hdata, if_neg hlines, ← intercalate_concat_nil,
      intercalate_append_nil hlines, dropLast_concat]

theorem foldl_fieldLines (hplain : call.Plain) (events : List SseEvent) :
    (call.fieldLines json ++ [[]]).foldl processLine ⟨[], [], lastEventId, retry, events⟩ =
      ⟨[], [], call.id.getD lastEventId, call.retry.or retry,
        events ++ call.dispatched json lastEventId retry⟩ := by
  obtain ⟨data, event, id, time⟩ := call
  have hid : ((id.elim [] fun id => [['i', 'd'] ++ ':' :: ' ' :: id]).foldl
      processLine ⟨[], [], lastEventId, retry, events⟩) =
        ⟨[], [], id.getD lastEventId, retry, events⟩ := by
    cases id with
    | none => rfl
    | some id =>
      have hnull : '\x00' ∉ id := fun h => (hplain.id_line id rfl _ h).2.2 rfl
      dsimp only [Option.elim_some, foldl_cons, foldl_nil]
      rw [processLine_field (by decide)]
      simp [processField, hnull]
  have hevent : ((event.elim [] fun event =>
      [['e', 'v', 'e', 'n', 't'] ++ ':' :: ' ' :: event]).foldl processLine
        ⟨[], [], id.getD lastEventId, retry, events⟩) =
          ⟨[], event.getD [], id.getD lastEventId, retry, events⟩ := by
    cases event with
    | none => rfl
    | some event =>
      dsimp only [Option.elim_some, foldl_cons, foldl_nil]
      rw [processLine_field (by decide)]
      simp [processField]
  have htime : ((time.elim [] fun time =>
      [['r', 'e', 't', 'r', 'y'] ++ ':' :: ' ' :: strInt time]).foldl
        processLine ⟨[], event.getD [], id.getD lastEventId, retry, events⟩) =
          ⟨[], event.getD [], id.getD lastEventId, time.or retry, events⟩ := by
    cases time with
    | none => rfl
    | some time =>
      obtain ⟨n, rfl⟩ := Int.eq_ofNat_of_zero_le (hplain.retry_nonneg time rfl)
      have hdigits : Nat.toDigits 10 n ≠ [] ∧ (Nat.toDigits 10 n).all Char.isDigit = true :=
        ⟨Nat.toDigits_ne_nil, all_eq_true.mpr fun c hc =>
          Nat.isDigit_of_mem_toDigits (by decide) (by decide) hc⟩
      dsimp only [Option.elim_some, foldl_cons, foldl_nil]
      rw [processLine_field (by decide)]
      simp [processField, strInt, hdigits, Nat.ofDigitChars_ten_toDigits]
  have htype : (if event.getD [] = [] then message else event.getD []) =
      event.getD message := by
    cases event with
    | none => rfl
    | some event => exact if_neg (hplain.event_ne_nil event rfl)
  rw [SseCall.fieldLines, foldl_append, foldl_append,
    foldl_append, foldl_append, hid, hevent, htime, foldl_data]
  dsimp only [foldl_cons, foldl_nil, nil_append]
  rw [processLine, if_pos rfl, dispatch_lines, SseCall.dispatched]
  simp only [linesOf_eq_nil_iff, htype, SseCall.expected]

theorem notBreak_of_mem_field {name value : List Char} (hname : ∀ c ∈ name, c ≠ '\r' ∧ c ≠ '\n')
    (hvalue : ∀ c ∈ value, c ≠ '\r' ∧ c ≠ '\n') :
    ∀ c ∈ name ++ ':' :: ' ' :: value, c ≠ '\r' ∧ c ≠ '\n' := by
  intro c hc
  rcases mem_append.mp hc with hc | hc
  · exact hname c hc
  · rcases mem_cons.mp hc with rfl | hc
    · simp
    · rcases mem_cons.mp hc with rfl | hc
      · simp
      · exact hvalue c hc

theorem notBreak_strInt (time : ℤ) : ∀ c ∈ strInt time, c ≠ '\r' ∧ c ≠ '\n' := by
  have hdigits : ∀ n, ∀ c ∈ Nat.toDigits 10 n, c ≠ '\r' ∧ c ≠ '\n' := by
    intro n c hc
    have hdigit := Nat.isDigit_of_mem_toDigits (by decide) (by decide) hc
    constructor <;> rintro rfl <;> simp at hdigit
  cases time with
  | ofNat n => exact hdigits n
  | negSucc n =>
    intro c hc
    rcases mem_cons.mp hc with rfl | hc
    · simp
    · exact hdigits _ c hc

theorem notBreak_of_mem_fieldLines (hplain : call.Plain) :
    ∀ line ∈ call.fieldLines json, ∀ c ∈ line, c ≠ '\r' ∧ c ≠ '\n' := by
  obtain ⟨data, event, id, time⟩ := call
  intro line hline
  simp only [SseCall.fieldLines, mem_append] at hline
  rcases hline with ((hid | hevent) | htime) | hdata
  · cases id with
    | none => simp at hid
    | some id =>
      rw [mem_singleton.mp hid]
      exact notBreak_of_mem_field (by simp) fun c hc =>
        (hplain.id_line id rfl c hc).imp_right And.left
  · cases event with
    | none => simp at hevent
    | some event =>
      rw [mem_singleton.mp hevent]
      exact notBreak_of_mem_field (by simp) (hplain.event_line event rfl)
  · cases time with
    | none => simp at htime
    | some time =>
      rw [mem_singleton.mp htime]
      exact notBreak_of_mem_field (by simp) (notBreak_strInt time)
  · obtain ⟨value, hvalue, rfl⟩ := mem_map.mp hdata
    refine notBreak_of_mem_field (by simp) fun c hc => ?_
    have hbreak := eq_false_of_mem_linesOf hvalue hc
    constructor <;> rintro rfl <;> simp [isLineBreak] at hbreak

theorem foldl_calls (h : ∀ call ∈ calls, call.Plain) (events : List SseEvent) :
    ((calls.flatMap fun call => call.fieldLines json ++ [[]]).foldl processLine
        ⟨[], [], lastEventId, retry, events⟩).events =
      events ++ dispatchedAll json lastEventId retry calls := by
  induction calls generalizing lastEventId retry events with
  | nil => simp [dispatchedAll]
  | cons call calls ih =>
    rw [flatMap_cons, foldl_append, foldl_fieldLines (h call mem_cons_self),
      ih fun call hcall => h call (mem_cons_of_mem _ hcall),
      dispatchedAll, append_assoc]

/-- A stream of calls on whose fields no other line begins. -/
theorem parse_calls (h : ∀ call ∈ calls, call.Plain) :
    parse (calls.flatMap (formatSseEvent json)) = dispatchedAll json [] none calls := by
  have hformat : formatSseEvent json = fun call : SseCall M J =>
      (call.fieldLines json ++ [[]]).flatMap (· ++ ['\n']) := by
    funext call
    rw [← intercalate_concat_nil, append_assoc]
    rfl
  have hlines : ∀ line ∈ calls.flatMap fun call => call.fieldLines json ++ [[]],
      ∀ c ∈ line, c ≠ '\r' ∧ c ≠ '\n' := by
    intro line hline
    obtain ⟨call, hcall, hline⟩ := mem_flatMap.mp hline
    rcases mem_append.mp hline with hline | hempty
    · exact notBreak_of_mem_fieldLines (h call hcall) line hline
    · simp [mem_singleton.mp hempty]
  have hreturn : '\r' ∉ (calls.flatMap fun call =>
      call.fieldLines json ++ [[]]).flatMap (· ++ ['\n']) := by
    intro hmem
    obtain ⟨line, hline, hc⟩ := mem_flatMap.mp hmem
    rcases mem_append.mp hc with hc | hc
    · exact (hlines line hline _ hc).1 rfl
    · simp at hc
  rw [hformat, ← flatMap_assoc, parse, unifyBreaks, unifyFrom_of_notMem hreturn,
    splitOn_flatMap fun line hline hc => (hlines line hline _ hc).2 rfl,
    dropLast_concat]
  exact foldl_calls h []

end SseParser

/-! ## Round trips -/

theorem length_dispatchedAll_le (json : JsonText M J) (lastEventId : List Char)
    (retry : Option ℤ) (calls : List (SseCall M J)) :
    (dispatchedAll json lastEventId retry calls).length ≤
      (delivered json lastEventId retry calls).length := by
  induction calls generalizing lastEventId retry with
  | nil => exact Nat.le_refl _
  | cons call calls ih =>
    have hrest := ih (call.id.getD lastEventId) (call.retry.or retry)
    have hone : (call.dispatched json lastEventId retry).length ≤ 1 := by
      unfold SseCall.dispatched
      split <;> simp
    simp only [dispatchedAll, delivered, length_append, length_cons]
    omega

theorem dispatchedAll_eq_iff : dispatchedAll json lastEventId retry calls =
        delivered json lastEventId retry calls ↔
      ∀ call ∈ calls, call.data.serialise json ≠ [] ∧
        ['\n'].intercalate (linesOf isLineBreak (call.data.serialise json)) =
          unifyBreaks (call.data.serialise json) := by
  induction calls generalizing lastEventId retry with
  | nil => simp [dispatchedAll, delivered]
  | cons call calls ih =>
    rw [forall_mem_cons, dispatchedAll, delivered, SseCall.dispatched]
    by_cases hempty : call.data.serialise json = []
    · rw [if_pos hempty]
      refine iff_of_false (fun heq => ?_) fun h => h.1.1 hempty
      have hlength := congrArg List.length heq
      have hle := length_dispatchedAll_le json (call.id.getD lastEventId)
        (call.retry.or retry) calls
      rw [nil_append, length_cons] at hlength
      omega
    · rw [if_neg hempty, singleton_append, cons_eq_cons, ih]
      simp [SseCall.expected, hempty]

theorem SsePayload.sound_iff (payload : SsePayload M J) :
    payload.Sound json ↔ payload.serialise json ≠ [] ∧
      ['\n'].intercalate (linesOf isLineBreak (payload.serialise json)) =
        unifyBreaks (payload.serialise json) := by
  have hiff : payload.serialise json ≠ [] ∧
      ['\n'].intercalate (linesOf isLineBreak (payload.serialise json)) =
        unifyBreaks (payload.serialise json) ↔
      payload.serialise json ≠ [] ∧ (∀ c ∈ payload.serialise json, isLineBreak c = true →
          c = '\r' ∨ c = '\n') ∧
        ∀ c ∈ (payload.serialise json).getLast?, c ≠ '\r' ∧ c ≠ '\n' :=
    and_congr_right fun hne => intercalate_linesOf_iff (by decide) hne
  rw [hiff]
  cases payload with
  | model data | text data => exact Iff.rfl
  | collection data =>
    have hbreak : ∀ c ∈ json.dumps data, isLineBreak c = false := by
      intro c hc
      have hprintable := json.dumps_printable data c hc
      rw [Bool.eq_false_iff]
      intro hbreak
      simp only [isLineBreak, contains_iff_mem, mem_cons, not_mem_nil, or_false] at hbreak
      rcases hbreak with
        rfl | rfl | rfl | rfl | rfl | rfl | rfl | rfl | rfl | rfl <;>
      exact absurd hprintable (by decide)
    refine iff_of_true trivial ⟨json.dumps_ne_nil data, fun c hc h => ?_, fun c hc => ?_⟩
    · rw [hbreak c hc] at h
      cases h
    · have hother := hbreak c (mem_of_getLast? hc)
      constructor <;> rintro rfl <;> simp [isLineBreak] at hother

/-- The events of a stream of calls are those that the calls describe exactly if
each call has a sound payload and fields which stand on one line. -/
theorem parse_formatSseEvent_iff (json : JsonText M J) (calls : List (SseCall M J)) :
    SseParser.parse (calls.flatMap (formatSseEvent json)) = delivered json [] none calls ↔
      ∀ call ∈ calls, call.Plain ∧ call.data.Sound json := by
  constructor
  · intro heq
    have hplain : ∀ call ∈ calls, call.Plain :=
      plain_of_delivered fun event hevent =>
        SseParser.clean_parse event (heq ▸ hevent)
    rw [SseParser.parse_calls hplain, dispatchedAll_eq_iff] at heq
    exact fun call hcall =>
      ⟨hplain call hcall, (SsePayload.sound_iff call.data).mpr (heq call hcall)⟩
  · intro hsound
    rw [SseParser.parse_calls fun call hcall => (hsound call hcall).1, dispatchedAll_eq_iff]
    exact fun call hcall =>
      (SsePayload.sound_iff call.data).mp (hsound call hcall).2

/-- An identifier with a line break puts a line of data in front of the
payload. -/
def forged : SseCall Empty Empty where
  data := .text "paid".toList
  event := none
  id := some "7\ndata: free".toList
  retry := none

theorem not_parse_formatSseEvent :
    ¬ ∀ (json : JsonText Empty Empty) (calls : List (SseCall Empty Empty)),
      SseParser.parse (calls.flatMap (formatSseEvent json)) = delivered json [] none calls := by
  intro h
  have hforged := h ⟨Empty.elim, Empty.elim, fun data => data.elim,
    fun data => data.elim⟩ [forged]
  exact absurd hforged (by decide)

end PyFly.Web

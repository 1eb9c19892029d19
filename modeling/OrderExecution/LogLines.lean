import OrderExecution.AsyncLoggerSound
import OrderExecution.Buffer

/-!
# The lines of the log

What `push_impl` leaves in the buffer of its slot, over whatever was there, and
what `io_loop` writes to `stdout`. The message that a slot of `LoggerState` holds
is what the bytes of the buffer are compared with.
-/

namespace OrderExecution

/-- `SLOT_SIZE` -/
def slotSize : Nat := 256

/-- The size that `snprintf` is given for what stands before the message. -/
def headSize : Nat := 48

/-- `info`, `warn` and `error` -/
inductive LogLevel where
  | info
  | warn
  | error
  deriving DecidableEq

def LogLevel.text : LogLevel → Bytes
  | .info => lit "info"
  | .warn => lit "warn"
  | .error => lit "error"

/-- A call of `info`, `warn` or `error`; `text` is `fmt` with its arguments. With
a longer component `SLOT_SIZE - offset` wraps, and `vsnprintf` leaves the slot. -/
structure LogMessage where
  level : LogLevel
  component : CStr 245
  text : Bytes
  plain : 0 ∉ text
  deriving DecidableEq

namespace LogMessage

/-- `"[%s] [%s] "` -/
def head (m : LogMessage) : Bytes := lit "[" ++ m.level.text ++ lit "] [" ++ m.component.bytes ++ lit "] "

theorem head_fits (m : LogMessage) : m.head.length ≤ slotSize := by
  have hc := m.component.fits.1
  have hl : m.level.text.length ≤ 5 := by cases m.level <;> decide
  have h₁ : (lit "[").length = 1 := rfl
  have h₂ : (lit "] [").length = 3 := rfl
  have h₃ : (lit "] ").length = 2 := rfl
  simp only [head, List.length_append, slotSize]
  omega

theorem head_plain (m : LogMessage) : 0 ∉ m.head := by
  have hc := m.component.fits.2
  have hl : 0 ∉ m.level.text := by cases m.level <;> decide
  have h₁ : 0 ∉ lit "[" := by decide
  have h₂ : 0 ∉ lit "] [" := by decide
  have h₃ : 0 ∉ lit "] " := by decide
  simp only [head, List.mem_append, not_or]
  exact ⟨⟨⟨⟨h₁, hl⟩, h₂⟩, hc⟩, h₃⟩

/-- What is seen of a message: its text only where it follows on the head. -/
def shown (m : LogMessage) : Bytes :=
  if m.head.length < headSize then m.head ++ m.text.take (slotSize - m.head.length - 1)
  else m.head.take (headSize - 1)

/-- A message that fills the slot gets no newline. -/
def line (m : LogMessage) : Bytes :=
  if m.shown.length < slotSize - 1 then m.shown ++ lit "\n" else m.shown

end LogMessage

/-! ## The buffer -/

namespace Buffer

/-- `snprintf(slot.buf, 48, "[%s] [%s] ", level, component)` -/
def printHead (b : Buffer slotSize) (m : LogMessage) : Buffer slotSize :=
  b.print 0 headSize m.head (by decide)

/-- `vsnprintf(slot.buf + offset, SLOT_SIZE - offset, fmt, args)`, where `offset`
is the length of the whole head, cut or not. -/
def printText (b : Buffer slotSize) (m : LogMessage) : Buffer slotSize :=
  b.print m.head.length (slotSize - m.head.length) m.text (by have := m.head_fits; omega)

def endLine (b : Buffer slotSize) : Buffer slotSize :=
  if b.cstr.length < slotSize - 1 then (b.put b.cstr.length 10).put (b.cstr.length + 1) 0 else b

variable (b : Buffer slotSize) (m : LogMessage)

theorem cstr_printHead : (b.printHead m).cstr = m.head.take (headSize - 1) := by
  rw [printHead, cstr_print _ (by decide) (by simp) m.head_plain]
  rfl

theorem cstr_printText (h : b.cstr = m.head.take (headSize - 1)) : (b.printText m).cstr = m.shown := by
  have hfits : m.head.length ≤ 256 := m.head_fits
  have hlen : b.cstr.length = min 47 m.head.length := by rw [h, List.length_take]; rfl
  by_cases hlt : m.head.length < headSize
  · have hwhole : m.head.take (headSize - 1) = m.head := List.take_of_length_le (Nat.le_pred_of_lt hlt)
    have hroom : slotSize - m.head.length ≠ 0 := Nat.sub_ne_zero_of_lt (Nat.lt_trans hlt (by decide))
    rw [hwhole] at h
    rw [LogMessage.shown, if_pos hlt, printText, cstr_print_end _ hroom (by rw [h]) m.plain, h]
  · have hcut : b.cstr.length < m.head.length := by
      simp only [headSize] at hlt
      omega
    rw [LogMessage.shown, if_neg hlt, printText, cstr_print_beyond _ hcut, h]

theorem cstr_endLine (h : b.cstr = m.shown) : b.endLine.cstr = m.line := by
  rw [endLine, LogMessage.line, h]
  split
  · next hlt =>
    rw [← h] at hlt ⊢
    exact cstr_put_put (by decide) (by simp only [slotSize] at hlt ⊢; omega)
  · exact h

end Buffer

/-! ## The machine -/

/-- The position and the message of a thread that writes its slot. -/
def ProducerPc.writes {α : Type} : ProducerPc α → Option (Nat × α)
  | .write idx _ line => some (idx, line)
  | _ => none

/-- Where a thread is in the write of its slot. -/
inductive PrintStage where
  | head
  | text
  | ending
  deriving DecidableEq

/-- The logger with the bytes of its buffers and what was written to `stdout`. -/
structure LineState extends LoggerState LogMessage where
  bufs : Nat → Buffer slotSize
  stage : Nat → PrintStage := fun _ => .head
  stdout : Bytes := []

namespace LineState

open LoggerState

/-- Static storage: the buffers are filled with zeros. `none` of the messages
stands in them. -/
def init (none : LogMessage) : LineState where
  toLoggerState := .init none
  bufs _ := ⟨List.replicate slotSize 0, List.length_replicate⟩

def bufAt (s : LineState) (idx : Nat) : Buffer slotSize := s.bufs (idx % ringCap)

def setBuf (s : LineState) (idx : Nat) (b : Buffer slotSize) : LineState :=
  { s with bufs := Function.update s.bufs (idx % ringCap) b }

def setStage (s : LineState) (t : Nat) (stage : PrintStage) : LineState :=
  { s with stage := Function.update s.stage t stage }

def withLogger (s : LineState) (l : LoggerState LogMessage) : LineState := { s with toLoggerState := l }

/-- The next print of thread `t` into its slot, the last with the step that ends
the write. -/
def write (s : LineState) (t idx : Nat) (m : LogMessage) : Option LineState :=
  match s.stage t with
  | .head => some ((s.setBuf idx ((s.bufAt idx).printHead m)).setStage t .text)
  | .text => some ((s.setBuf idx ((s.bufAt idx).printText m)).setStage t .ending)
  | .ending => (s.produce t).map fun l => ((s.setBuf idx (s.bufAt idx).endLine).setStage t .head).withLogger l

/-- `fwrite(slot.buf, 1, strlen(slot.buf), stdout)` in the step that outputs. -/
def step (s : LineState) (e : LoggerEvent LogMessage) : Option LineState :=
  match e with
  | .produce t =>
    match s.producers t with
    | .write idx _ m => s.write t idx m
    | _ => (s.produce t).map s.withLogger
  | .read =>
    match s.reader with
    | .output r => s.read.map fun l => { s.withLogger l with stdout := s.stdout ++ (s.bufAt r).cstr }
    | _ => s.read.map s.withLogger
  | _ => (s.toLoggerState.step e).map s.withLogger

/-! ## What the buffers hold -/

/-- How far the thread that writes `m` has come with the buffer. -/
def Prints (m : LogMessage) (b : Buffer slotSize) : PrintStage → Prop
  | .head => True
  | .text => b.cstr = m.head.take (headSize - 1)
  | .ending => b.cstr = m.shown

structure Lines (s : LineState) : Prop where
  logger : s.Inv
  stdout : s.stdout = (s.printed.map LogMessage.line).flatten
  unread : ∀ i, (s.slot i).unread = true → (s.bufAt i).cstr = (s.slot i).buf.line
  writing : ∀ t idx m, (s.producers t).writes = some (idx, m) → Prints m (s.bufAt idx) (s.stage t)
  outside : ∀ t, (s.producers t).writes = none → s.stage t = .head

variable {s s' : LineState} {l : LoggerState LogMessage} {t idx : Nat} {m : LogMessage}

theorem lines_init (none : LogMessage) : (init none).Lines where
  logger := inv_init none
  stdout := rfl
  unread := fun i h => by cases h
  writing := fun t idx m h => by cases h
  outside := fun t _ => rfl

theorem eq_write (h : (s.producers t).writes = some (idx, m)) : ∃ c, s.producers t = .write idx c m := by
  cases hpc : s.producers t with
  | idle | wait _ _ _ | publish _ _ =>
    rw [hpc] at h
    cases h
  | write idx' c m' =>
    rw [hpc] at h
    obtain ⟨rfl, rfl⟩ := Prod.mk.inj (Option.some.inj h)
    exact ⟨c, rfl⟩

theorem bufAt_setBuf {i : Nat} (h : i % ringCap = idx % ringCap) (b : Buffer slotSize) :
    (s.setBuf idx b).bufAt i = b := by
  simp [bufAt, setBuf, h]

theorem bufAt_setBuf_ne {i : Nat} (h : i % ringCap ≠ idx % ringCap) (b : Buffer slotSize) :
    (s.setBuf idx b).bufAt i = s.bufAt i := by
  simp [bufAt, setBuf, h]

/-- The buffer a thread writes holds no message, and no other thread writes it. -/
theorem Lines.alone (h : s.Lines) (hw : (s.producers t).writes = some (idx, m)) :
    (∀ i, i % ringCap = idx % ringCap → (s.slot i).unread = false) ∧
      ∀ t' idx' m', (s.producers t').writes = some (idx', m') → idx' % ringCap = idx % ringCap → t' = t := by
  obtain ⟨c, hpc⟩ := eq_write hw
  have hT := h.logger.thread t
  rw [hpc] at hT
  obtain ⟨hclaims, hnear, -, hunread, -⟩ := hT
  refine ⟨fun i hi => ?_, fun t' idx' m' hw' hmod => ?_⟩
  · rw [slot_congr hi, hclaims.slot_eq]
    exact hunread
  · obtain ⟨c', hpc'⟩ := eq_write hw'
    have hT' := h.logger.thread t'
    rw [hpc'] at hT'
    obtain ⟨hclaims', hnear', -⟩ := hT'
    rw [hclaims.word, hclaims'.word, mod_word_mod_ringCap, mod_word_mod_ringCap] at hmod
    obtain rfl := Ring.eq_of_round hmod hclaims'.ge hclaims.ge hnear' hnear
    exact h.logger.apart t' t c' (by rw [hpc']; rfl) (by rw [hpc]; rfl)

/-- A step of the logger that neither writes nor outputs a buffer. -/
theorem Lines.quiet (h : s.Lines) (hl : l.Inv) (hprinted : l.printed = s.printed)
    (hslot : ∀ i, (l.slot i).unread = (s.slot i).unread ∧ (l.slot i).buf = (s.slot i).buf)
    (hwrites : ∀ t, (l.producers t).writes = (s.producers t).writes ∨ (s.producers t).writes = none) :
    (s.withLogger l).Lines where
  logger := hl
  stdout := by
    show s.stdout = (l.printed.map LogMessage.line).flatten
    rw [hprinted, h.stdout]
  unread := by
    intro i hi
    obtain ⟨hunread, hbuf⟩ := hslot i
    show (s.bufAt i).cstr = (l.slot i).buf.line
    rw [hbuf]
    exact h.unread i (hunread ▸ hi)
  writing := by
    intro t idx m hw
    rcases hwrites t with hsame | hnone
    · exact h.writing t idx m (hsame ▸ hw)
    · show Prints m (s.bufAt idx) (s.stage t)
      rw [h.outside t hnone]
      trivial
  outside := by
    intro t hw
    rcases hwrites t with hsame | hnone
    · exact h.outside t (hsame ▸ hw)
    · exact h.outside t hnone

theorem Lines.print (h : s.Lines) (hw : (s.producers t).writes = some (idx, m)) {b : Buffer slotSize}
    {stage : PrintStage} (hb : Prints m b stage) : ((s.setBuf idx b).setStage t stage).Lines := by
  obtain ⟨hunread, halone⟩ := h.alone hw
  refine ⟨h.logger, h.stdout, fun i hi => ?_, fun t' idx' m' hw' => ?_, fun t' hw' => ?_⟩
  · by_cases hmod : i % ringCap = idx % ringCap
    · have hno := hunread i hmod
      exact absurd (hno.symm.trans hi) (by decide)
    · show ((s.setBuf idx b).bufAt i).cstr = _
      rw [bufAt_setBuf_ne hmod]
      exact h.unread i hi
  · by_cases ht : t' = t
    · subst ht
      obtain ⟨rfl, rfl⟩ := Prod.mk.inj (Option.some.inj (hw'.symm.trans hw))
      show Prints m' ((s.setBuf idx' b).bufAt idx') (Function.update s.stage t' stage t')
      rw [bufAt_setBuf rfl, Function.update_self]
      exact hb
    · show Prints m' ((s.setBuf idx b).bufAt idx') (Function.update s.stage t stage t')
      rw [bufAt_setBuf_ne fun hmod => ht (halone t' idx' m' hw' hmod), Function.update_of_ne ht]
      exact h.writing t' idx' m' hw'
  · have ht : t' ≠ t := by
      intro ht
      subst ht
      exact absurd (hw.symm.trans hw') (by simp)
    show Function.update s.stage t stage t' = .head
    rw [Function.update_of_ne ht]
    exact h.outside t' hw'

/-- The last print, and with it the end of the write. -/
theorem Lines.written (h : s.Lines) {c : Nat} (hpc : s.producers t = .write idx c m) (hstage : s.stage t = .ending)
    (hs : s.toLoggerState.produce t = some l) :
    (((s.setBuf idx (s.bufAt idx).endLine).setStage t .head).withLogger l).Lines := by
  have hw : (s.producers t).writes = some (idx, m) := by rw [hpc]; rfl
  have hline : (s.bufAt idx).endLine.cstr = m.line := by
    have hprints := h.writing t idx m hw
    rw [hstage] at hprints
    exact Buffer.cstr_endLine _ m hprints
  have hl : l.Inv := h.logger.produce (by rw [InTurn, hpc]; trivial) hs
  have heq := Option.some.inj (hs.symm.trans (produce_write hpc))
  have hprinted : l.printed = s.printed := by rw [heq]; rfl
  have hself : l.producers t = .publish idx c := by rw [heq]; exact producers_goto_self ..
  have hother : ∀ t', t' ≠ t → l.producers t' = s.producers t' := fun t' ht => by
    rw [heq]
    exact producers_goto_ne ht _
  have hslot : ∀ i, i % ringCap = idx % ringCap → (l.slot i).buf = m := fun i hmod => by
    rw [slot_congr hmod, heq]
    exact congrArg LogSlot.buf (slot_setSlot_self _)
  have hslots : ∀ i, i % ringCap ≠ idx % ringCap → l.slot i = s.slot i := fun i hmod => by
    rw [heq]
    exact slot_setSlot_ne hmod _
  obtain ⟨-, halone⟩ := h.alone hw
  refine ⟨hl, h.stdout.trans (by rw [← hprinted]; rfl), fun i hi => ?_, fun t' idx' m' hw' => ?_, fun t' hw' => ?_⟩
  · show ((s.setBuf idx _).bufAt i).cstr = (l.slot i).buf.line
    by_cases hmod : i % ringCap = idx % ringCap
    · rw [bufAt_setBuf hmod, hslot i hmod]
      exact hline
    · rw [bufAt_setBuf_ne hmod, hslots i hmod]
      exact h.unread i (hslots i hmod ▸ hi)
  · have hw' : (l.producers t').writes = some (idx', m') := hw'
    have ht : t' ≠ t := by
      intro ht
      rw [ht, hself] at hw'
      cases hw'
    rw [hother t' ht] at hw'
    show Prints m' ((s.setBuf idx _).bufAt idx') (Function.update s.stage t .head t')
    rw [bufAt_setBuf_ne fun hmod => ht (halone t' idx' m' hw' hmod), Function.update_of_ne ht]
    exact h.writing t' idx' m' hw'
  · have hw' : (l.producers t').writes = none := hw'
    show Function.update s.stage t .head t' = .head
    by_cases ht : t' = t
    · rw [ht, Function.update_self]
    · rw [Function.update_of_ne ht]
      exact h.outside t' (hother t' ht ▸ hw')

/-- The buffer that is output holds the line of its message. -/
theorem Lines.unread_of_output (h : s.Lines) {r : Nat} (hr : s.reader = .output r) : (s.slot r).unread = true := by
  have hreader := h.logger.reader
  rw [hr] at hreader
  obtain ⟨hread, hready⟩ := hreader
  have hhead := h.logger.readHead
  rw [hr, ← hread] at hhead
  have hmod : r % ringCap = s.printed.length % ringCap := by
    rw [hhead]
    exact mod_word_mod_ringCap _
  rw [slot_congr hmod] at hready ⊢
  exact (h.logger.published_of_ready hready (fun r' hr' => by rw [hr] at hr'; cases hr') rfl).unread

theorem Lines.output (h : s.Lines) {r : Nat} (hr : s.reader = .output r) (hs : s.toLoggerState.read = some l) :
    { s.withLogger l with stdout := s.stdout ++ (s.bufAt r).cstr }.Lines := by
  have hl : l.Inv := h.logger.read hs
  have hbuf := h.unread r (h.unread_of_output hr)
  simp only [LoggerState.read, hr] at hs
  have heq := (Option.some.inj hs).symm
  have hslot : ∀ i, (l.slot i).unread = true → l.slot i = s.slot i := by
    intro i hi
    rw [heq] at hi ⊢
    refine slot_setSlot_ne (fun hmod => ?_) _
    rw [slot_congr hmod] at hi
    exact absurd (congrArg LogSlot.unread (slot_setSlot_self _) |>.symm.trans hi) Bool.false_ne_true
  have hproducers : l.producers = s.producers := by rw [heq]; rfl
  refine ⟨hl, ?_, fun i hi => ?_, fun t' idx' m' hw' => h.writing t' idx' m' (hproducers ▸ hw'),
    fun t' hw' => h.outside t' (hproducers ▸ hw')⟩
  · show s.stdout ++ (s.bufAt r).cstr = (l.printed.map LogMessage.line).flatten
    rw [heq, hbuf, h.stdout]
    simp
  · have hsame := hslot i hi
    show (s.bufAt i).cstr = (l.slot i).buf.line
    rw [hsame]
    exact h.unread i (hsame ▸ hi)

/-! ## Runs -/

theorem goto_writes {pc : ProducerPc LogMessage} (hw : (s.producers t).writes = none) (t' : Nat) :
    ((s.toLoggerState.goto t pc).producers t').writes = (s.producers t').writes ∨ (s.producers t').writes = none := by
  by_cases ht : t' = t
  · exact .inr (ht ▸ hw)
  · rw [producers_goto_ne ht]
    exact .inl rfl

theorem setSlot_ready (l : LoggerState LogMessage) (ready : Bool) (idx i : Nat) :
    ((l.setSlot idx { l.slot idx with ready := ready }).slot i).unread = (l.slot i).unread ∧
      ((l.setSlot idx { l.slot idx with ready := ready }).slot i).buf = (l.slot i).buf := by
  by_cases hmod : i % ringCap = idx % ringCap
  · rw [slot_congr (s := l) hmod, slot_congr hmod, slot_setSlot_self]
    exact ⟨rfl, rfl⟩
  · rw [slot_setSlot_ne hmod]
    exact ⟨rfl, rfl⟩

theorem Lines.push (h : s.Lines) (hs : s.toLoggerState.push t m = some l) : (s.withLogger l).Lines := by
  obtain ⟨hidle, rfl⟩ := push_eq hs
  exact h.quiet (h.logger.pushed hidle m) rfl (fun i => ⟨rfl, rfl⟩) (goto_writes (by rw [hidle]; rfl))

theorem Lines.produce (h : s.Lines) (hturn : s.toLoggerState.InTurn (.produce t))
    (hs : s.step (.produce t) = some s') : s'.Lines := by
  cases hpc : s.producers t with
  | idle =>
    simp only [LineState.step, hpc, LoggerState.produce] at hs
    cases hs
  | wait idx c m =>
    simp only [LineState.step, hpc] at hs
    obtain ⟨l, hl, rfl⟩ := Option.map_eq_some_iff.mp hs
    have hinv := h.logger.produce hturn hl
    simp only [LoggerState.produce, hpc] at hl
    split at hl
    · obtain rfl := Option.some.inj hl
      exact h
    · obtain rfl := Option.some.inj hl
      exact h.quiet hinv rfl (fun i => ⟨rfl, rfl⟩) (goto_writes (by rw [hpc]; rfl))
  | write idx c m =>
    have hw : (s.producers t).writes = some (idx, m) := by rw [hpc]; rfl
    have hprints := h.writing t idx m hw
    simp only [LineState.step, hpc, LineState.write] at hs
    cases hstage : s.stage t with
    | head =>
      rw [hstage] at hs
      obtain rfl := Option.some.inj hs
      exact h.print hw (Buffer.cstr_printHead ..)
    | text =>
      rw [hstage] at hs hprints
      obtain rfl := Option.some.inj hs
      exact h.print hw (Buffer.cstr_printText _ m hprints)
    | ending =>
      rw [hstage] at hs
      obtain ⟨l, hl, rfl⟩ := Option.map_eq_some_iff.mp hs
      exact h.written hpc hstage hl
  | publish idx c =>
    simp only [LineState.step, hpc] at hs
    obtain ⟨l, hl, rfl⟩ := Option.map_eq_some_iff.mp hs
    have hinv := h.logger.produce hturn hl
    simp only [LoggerState.produce, hpc] at hl
    obtain rfl := Option.some.inj hl
    exact h.quiet hinv rfl (setSlot_ready _ true idx) (goto_writes (by rw [hpc]; rfl))

/-- A step of the reader that outputs nothing. -/
theorem Lines.look (h : s.Lines) (hr : ∀ r, s.reader ≠ .output r) (hs : s.toLoggerState.read = some l) :
    (s.withLogger l).Lines := by
  have hinv := h.logger.read hs
  unfold LoggerState.read at hs
  cases hpc : s.reader with
  | done => rw [hpc] at hs; cases hs
  | output r => exact absurd hpc (hr r)
  | loop | load | test r =>
    rw [hpc] at hs
    simp only at hs
    split at hs <;> obtain rfl := Option.some.inj hs <;>
      exact h.quiet hinv rfl (fun i => ⟨rfl, rfl⟩) (fun t => .inl rfl)
  | clear r =>
    rw [hpc] at hs
    obtain rfl := Option.some.inj hs
    exact h.quiet hinv rfl (setSlot_ready _ false r) (fun t => .inl rfl)
  | advance =>
    rw [hpc] at hs
    obtain rfl := Option.some.inj hs
    exact h.quiet hinv rfl (fun i => ⟨rfl, rfl⟩) (fun t => .inl rfl)

theorem Lines.step {e : LoggerEvent LogMessage} (h : s.Lines) (hturn : s.toLoggerState.InTurn e)
    (hs : s.step e = some s') : s'.Lines := by
  cases e with
  | push t m =>
    obtain ⟨l, hl, rfl⟩ := Option.map_eq_some_iff.mp hs
    exact h.push hl
  | produce t => exact h.produce hturn hs
  | read =>
    cases hr : s.reader with
    | output r =>
      simp only [LineState.step, hr] at hs
      obtain ⟨l, hl, rfl⟩ := Option.map_eq_some_iff.mp hs
      exact h.output hr hl
    | loop | load | test _ | clear _ | advance | done =>
      simp only [LineState.step, hr] at hs
      obtain ⟨l, hl, rfl⟩ := Option.map_eq_some_iff.mp hs
      exact h.look (fun r' hr' => by rw [hr] at hr'; cases hr') hl
  | stop =>
    simp only [LineState.step] at hs
    obtain ⟨l, hl, rfl⟩ := Option.map_eq_some_iff.mp hs
    have hinv := h.logger.step hturn hl
    obtain rfl := Option.some.inj hl
    exact h.quiet hinv rfl (fun i => ⟨rfl, rfl⟩) (fun t => .inl rfl)

/-- What the log shows is the lines of the first messages, in the order of their
claims. -/
theorem stdout_lines {none : LogMessage} {es : List (LoggerEvent LogMessage)}
    (hr : Machine.run LineState.step (init none) es = some s)
    (hturn : Machine.Along LineState.step (fun s e => s.toLoggerState.InTurn e) (init none) es) :
    s.stdout = ((s.claimed.take s.printed.length).map LogMessage.line).flatten := by
  have h : s.Lines := Machine.inv_along (fun _ _ _ hI hC hs => hI.step hC hs) hturn (lines_init none) hr
  rw [h.stdout, ← List.prefix_iff_eq_take.mp h.logger.ordered]

/-! ## The end of the log -/

/-- Once its thread has ended, every message was output. -/
def Drained (l : LoggerState LogMessage) : Prop :=
  l.reader = .done → l.running = false ∧ l.printed.length % 2 ^ 64 = l.claimed.length % 2 ^ 64

/-- No message is pushed once the destructor runs. -/
def InTime (l : LoggerState LogMessage) : LoggerEvent LogMessage → Prop
  | .push .. => l.running = true
  | _ => True

instance (l : LoggerState LogMessage) : (e : LoggerEvent LogMessage) → Decidable (InTime l e)
  | .push .. => inferInstanceAs (Decidable (_ = _))
  | .produce _ => isTrue trivial
  | .read => isTrue trivial
  | .stop => isTrue trivial

theorem drained_read {l' : LoggerState LogMessage} (hinv : l.Inv) (hs : l.read = some l') : Drained l' := by
  intro hdone
  have hread := hinv.readHead
  unfold LoggerState.read at hs
  cases hpc : l.reader with
  | loop =>
    rw [hpc] at hs hread
    simp only at hs
    split at hs
    · obtain rfl := Option.some.inj hs
      cases hdone
    · next hnot =>
      obtain rfl := Option.some.inj hs
      rw [not_or, not_not, Bool.not_eq_true] at hnot
      exact ⟨hnot.1, hread.symm.trans (hnot.2.trans hinv.writeHead)⟩
  | done => rw [hpc] at hs; cases hs
  | load | test _ =>
    rw [hpc] at hs
    simp only at hs
    split at hs <;> obtain rfl := Option.some.inj hs <;> cases hdone
  | output _ | clear _ | advance =>
    rw [hpc] at hs
    obtain rfl := Option.some.inj hs
    cases hdone

theorem drained_produce {l' : LoggerState LogMessage} (h : Drained l) (hs : l.produce t = some l') : Drained l' := by
  unfold LoggerState.produce at hs
  cases hpc : l.producers t with
  | idle => rw [hpc] at hs; cases hs
  | wait _ _ _ =>
    rw [hpc] at hs
    simp only at hs
    split at hs <;> obtain rfl := Option.some.inj hs <;> exact h
  | write _ _ _ | publish _ _ =>
    rw [hpc] at hs
    obtain rfl := Option.some.inj hs
    exact h

theorem drained_step {l' : LoggerState LogMessage} {e : LoggerEvent LogMessage} (h : Drained l) (hinv : l.Inv)
    (hin : InTime l e) (hs : l.step e = some l') : Drained l' := by
  cases e with
  | push t m =>
    obtain ⟨-, rfl⟩ := push_eq hs
    intro hdone
    have hrun : l.running = false := (h hdone).1
    exact absurd (hrun.symm.trans hin) Bool.false_ne_true
  | produce t => exact drained_produce h hs
  | read => exact drained_read hinv hs
  | stop =>
    obtain rfl := Option.some.inj hs
    exact fun hdone => ⟨rfl, (h hdone).2⟩

/-- The logger makes the step or, for the first two prints, none. -/
theorem logger_step {e : LoggerEvent LogMessage} (hs : s.step e = some s') :
    s'.toLoggerState = s.toLoggerState ∨ s.toLoggerState.step e = some s'.toLoggerState := by
  simp only [LineState.step] at hs
  split at hs
  · split at hs
    · next t idx _ m hpc =>
      unfold LineState.write at hs
      split at hs
      · exact .inl (by rw [← Option.some.inj hs]; rfl)
      · exact .inl (by rw [← Option.some.inj hs]; rfl)
      · obtain ⟨l, hl, rfl⟩ := Option.map_eq_some_iff.mp hs
        exact .inr hl
    · obtain ⟨l, hl, rfl⟩ := Option.map_eq_some_iff.mp hs
      exact .inr hl
  · split at hs <;> obtain ⟨l, hl, rfl⟩ := Option.map_eq_some_iff.mp hs <;> exact .inr hl
  · obtain ⟨l, hl, rfl⟩ := Option.map_eq_some_iff.mp hs
    exact .inr hl

/-- The destructor returns when every line was written. -/
theorem ended_stdout {none : LogMessage} {es : List (LoggerEvent LogMessage)}
    (hr : Machine.run LineState.step (init none) es = some s)
    (hturn : Machine.Along LineState.step (fun s e => s.toLoggerState.InTurn e) (init none) es)
    (hin : Machine.Along LineState.step (fun s e => InTime s.toLoggerState e) (init none) es)
    (hclaims : s.claimed.length < 2 ^ 64) (hdone : s.reader = .done) :
    s.stdout = (s.claimed.map LogMessage.line).flatten := by
  obtain ⟨h, hdrained⟩ : s.Lines ∧ Drained s.toLoggerState := by
    refine Machine.inv_along (I := fun s => s.Lines ∧ Drained s.toLoggerState) (fun s e s' hI hC hs => ?_)
      (hturn.and hin) ⟨lines_init none, fun hd => by cases hd⟩ hr
    refine ⟨hI.1.step hC.1 hs, ?_⟩
    rcases logger_step hs with hsame | hl
    · rw [hsame]
      exact hI.2
    · exact drained_step hI.2 hI.1.logger hC.2 hl
  have hprefix := h.logger.ordered
  have hlen : s.printed.length = s.claimed.length := by
    have hle := hprefix.length_le
    have hmod := (hdrained hdone).2
    rwa [Nat.mod_eq_of_lt hclaims, Nat.mod_eq_of_lt (Nat.lt_of_le_of_lt hle hclaims)] at hmod
  rw [h.stdout, hprefix.eq_of_length hlen]

end LineState

namespace Sample

open LineState Machine

/-- The component leaves no room for the text. -/
def unseen : LogMessage := ⟨.warn, .copy 245 (lit "a_component_with_a_rather_long_name_here"), lit "never seen", by decide⟩

def seen : LogMessage := ⟨.info, .copy 245 (lit "cex_gateway"), lit "ok", by decide⟩

/-- Two threads print at the same time, and the destructor waits for them. -/
def logging : List (LoggerEvent LogMessage) :=
  [.push 0 seen, .push 1 unseen] ++ (List.replicate 4 [.produce 1, .produce 0]).flatten ++
    [.produce 0, .produce 1, .stop] ++ List.replicate 13 .read

def loggingState : LineState := (run step (init seen) logging).getD (init seen)

theorem run_logging : run step (init seen) logging = some loggingState := rfl

theorem stdout_lines_logging : loggingState.stdout =
    lit "[info] [cex_gateway] ok\n[warn] [a_component_with_a_rather_long_name_her\n" :=
  (stdout_lines run_logging (by decide)).trans (by decide)

theorem ended_stdout_logging : loggingState.stdout = seen.line ++ unseen.line :=
  (ended_stdout run_logging (by decide) (by decide) (by decide) rfl).trans (by decide)

end Sample

end OrderExecution

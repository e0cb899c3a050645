/-
  WorkflowEditor.Proofs.StreamReading
  ───────────────────────────────────
  **AN EVENT STREAM READS AS ITS WHOLE BODY DOES.**

  `readBody` says which frames a body holds, without a decoder: the body is
  cut into lines, the lines into blocks at the blank ones, and each block
  with data in it is a frame.  A decoder that is fed the body in pieces
  carries a line, held bytes, an event and data from piece to piece:

    • `feedChars_held` — feeding text neither looks at the held bytes nor
      changes them,
    • `receiveFrom_eq` — so pieces of bytes give the frames of the text that
      they read as, however they are cut,
    • `framesFrom_eq`, `framesOfLines_eq` — text gives the frames of its
      lines, and lines those of their blocks,
    • `receive_reads_body` — these are the frames of the body.
-/
import WorkflowEditor.Proofs.LossyText
import WorkflowEditor.Run.Sse

namespace WorkflowEditor.Sse

/-! ## §1. The frames of a whole body. -/

/-- A line without one carriage return at its end. -/
def withoutReturn (line : List Char) : List Char :=
  if line.getLast? = some '\r' then line.dropLast else line

/-- The lines of a body.  What stands behind the last line feed is a line
if it is not empty. -/
def bodyLines (body : List Char) : List (List Char) :=
  let pieces := body.splitOn '\n'
  let pieces := if pieces.getLast? = some [] then pieces.dropLast else pieces
  pieces.map withoutReturn

/-- What a line says of a field: what stands behind its first colon, less
one leading space.  A remark begins with the colon and says nothing. -/
def fieldValue? (field : String) (line : List Char) : Option String :=
  if line.head? = some ':' then none
  else if String.ofList (line.takeWhile fun c => c != ':') = field then
    let value := (line.dropWhile fun c => c != ':').drop 1
    some (String.ofList (if value.head? = some ' ' then value.drop 1 else value))
  else none

/-- The name of a frame, by the last line that names it. -/
def frameName (event : Option String) : String :=
  match event with
  | none => "message"
  | some name => if name = "" then "message" else name

/-- The frame that a block of lines makes; without data it makes none. -/
def blockFrame? (block : List (List Char)) : Option Frame :=
  let event := (block.filterMap (fieldValue? "event")).getLast?
  match block.filterMap (fieldValue? "data") with
  | [] => none
  | data => some ⟨frameName event, "\n".intercalate data⟩

/-- The frames of a body: one for each block between blank lines that makes
one. -/
def readBody (body : List Char) : List Frame :=
  ((bodyLines body).splitOnP List.isEmpty).filterMap blockFrame?

namespace Decoder

/-! ## §2. Feeding pieces in turn. -/

/-- Takes in pieces of bytes one after the other. -/
def feedPieces (d : Decoder) : List (List UInt8) → Decoder × List Frame
  | [] => (d, [])
  | bytes :: rest =>
      let (d, frames) := d.feedBytes bytes
      let (d, more) := d.feedPieces rest
      (d, frames ++ more)

/-- The frames that pieces make when the stream ends behind them. -/
def receiveFrom (d : Decoder) (pieces : List (List UInt8)) : List Frame :=
  let (d, frames) := d.feedPieces pieces
  frames ++ d.finish.2.toList

/-- The frames of a stream that arrives in pieces and then ends. -/
def receive (pieces : List (List UInt8)) : List Frame := start.receiveFrom pieces

theorem receiveFrom_nil (d : Decoder) : d.receiveFrom [] = d.finish.2.toList := rfl

theorem receiveFrom_cons (d : Decoder) (bytes : List UInt8) (pieces : List (List UInt8)) :
    d.receiveFrom (bytes :: pieces)
      = (d.feedBytes bytes).2 ++ (d.feedBytes bytes).1.receiveFrom pieces := by
  unfold receiveFrom
  rw [← List.append_assoc]
  rfl

/-- The frames that text makes when the stream ends behind it. -/
def framesFrom (d : Decoder) (cs : List Char) : List Frame :=
  (d.feedChars cs).2 ++ (d.feedChars cs).1.finish.2.toList

theorem framesFrom_append (d : Decoder) (xs ys : List Char) :
    d.framesFrom (xs ++ ys) = (d.feedChars xs).2 ++ (d.feedChars xs).1.framesFrom ys := by
  unfold framesFrom
  rw [feedChars_append, List.append_assoc]

theorem takeLine_held (d : Decoder) (held : List UInt8) (line : List Char) :
    { d with held := held }.takeLine line
      = ({ (d.takeLine line).1 with held := held }, (d.takeLine line).2) := by
  unfold takeLine
  split
  · rfl
  · rfl
  · dsimp only
    split
    · rfl
    split <;> rfl

theorem step_held (d : Decoder) (held : List UInt8) (c : Char) :
    { d with held := held }.step c = ({ (d.step c).1 with held := held }, (d.step c).2) := by
  unfold step
  split
  · exact takeLine_held { d with line := [] } held d.currentLine
  · rfl

/-- Feeding text neither looks at the held bytes nor changes them. -/
theorem feedChars_held (d : Decoder) (held : List UInt8) (cs : List Char) :
    { d with held := held }.feedChars cs
      = ({ (d.feedChars cs).1 with held := held }, (d.feedChars cs).2) := by
  induction cs generalizing d with
  | nil => rfl
  | cons c cs ih =>
      show ((({ d with held := held }.step c).1.feedChars cs).1,
        ({ d with held := held }.step c).2.toList
          ++ (({ d with held := held }.step c).1.feedChars cs).2) = _
      rw [step_held, ih]
      rfl

/-- Text without a line feed is a part of the line. -/
theorem feedChars_line (d : Decoder) {cs : List Char} (h : '\n' ∉ cs) :
    d.feedChars cs = ({ d with line := cs.reverse ++ d.line }, []) := by
  induction cs generalizing d with
  | nil => rfl
  | cons c cs ih =>
      have hc : c ≠ '\n' := fun hc => h (by simp [hc])
      have hstep : d.step c = ({ d with line := c :: d.line }, none) := if_neg hc
      show (((d.step c).1.feedChars cs).1,
        (d.step c).2.toList ++ ((d.step c).1.feedChars cs).2) = _
      rw [hstep, ih _ (fun hcs => h (by simp [hcs])), List.reverse_cons, List.append_assoc]
      rfl

/-- What is still held back at the end of the stream reads as a part of
the last line. -/
theorem finish_held (d : Decoder) (h : Utf8.front d.held = .cut) :
    framesFrom { d with held := [] } (Utf8.lossy d.held) = d.finish.2.toList := by
  have hline : '\n' ∉ Utf8.lossy d.held := by
    rw [Utf8.lossy_of_cut h]
    split
    · exact List.not_mem_nil
    · decide
  unfold framesFrom
  rw [feedChars_line _ hline]
  show ({ d with line := (Utf8.lossy d.held).reverse ++ d.line, held := [] } :
    Decoder).finish.2.toList = _
  unfold finish
  dsimp only
  rw [Utf8.lossy_nil]
  rfl

theorem lossy_append (xs ys : List UInt8) :
    Utf8.lossy (xs ++ ys)
      = (Utf8.decode xs).1 ++ Utf8.lossy ((Utf8.decode xs).2 ++ ys) := by
  unfold Utf8.lossy
  rw [Utf8.decode_append]
  dsimp only
  split <;> simp

/-- A piece of bytes is fed as the text that it completes; the rest of it
is held back. -/
theorem feedBytes_eq (d : Decoder) (bytes : List UInt8) :
    d.feedBytes bytes
      = ({ (d.feedChars (Utf8.decode (d.held ++ bytes)).1).1 with
            held := (Utf8.decode (d.held ++ bytes)).2 },
          (d.feedChars (Utf8.decode (d.held ++ bytes)).1).2) :=
  feedChars_held d _ _

/-- **The held bytes and the pieces to come read as one text.** -/
theorem receiveFrom_eq (d : Decoder) (h : Utf8.front d.held = .cut)
    (pieces : List (List UInt8)) :
    d.receiveFrom pieces
      = framesFrom { d with held := [] } (Utf8.lossy (d.held ++ pieces.flatten)) := by
  induction pieces generalizing d with
  | nil => rw [List.flatten_nil, List.append_nil, finish_held d h, receiveFrom_nil]
  | cons bytes pieces ih =>
      have hheld : (d.feedBytes bytes).1.held = (Utf8.decode (d.held ++ bytes)).2 := by
        rw [feedBytes_eq]
      -- Feeding characters does not look at the held bytes, so they may be left out.
      have hstate : { (d.feedBytes bytes).1 with held := [] }
          = (feedChars { d with held := [] } (Utf8.decode (d.held ++ bytes)).1).1 := by
        rw [feedBytes_eq, feedChars_held d []]
      have hframes : (d.feedBytes bytes).2
          = (feedChars { d with held := [] } (Utf8.decode (d.held ++ bytes)).1).2 := by
        rw [feedBytes_eq, feedChars_held d []]
      have hcut : Utf8.front (d.feedBytes bytes).1.held = .cut := by
        rw [hheld]
        exact Utf8.front_held _
      rw [receiveFrom_cons, ih _ hcut, hstate, hframes, hheld, ← framesFrom_append,
        ← lossy_append, List.append_assoc, List.flatten_cons]

/-- **Pieces of bytes give the frames of the text that they read as.** -/
theorem receive_eq_framesFrom (pieces : List (List UInt8)) :
    receive pieces = framesFrom start (Utf8.lossy pieces.flatten) :=
  receiveFrom_eq start rfl pieces

/-! ## §3. Text is taken in line by line. -/

/-- The frames that lines make when the stream ends behind them. -/
def framesOfLines (d : Decoder) : List (List Char) → List Frame
  | [] => d.dispatch.2.toList
  | line :: rest => (d.takeLine line).2.toList ++ (d.takeLine line).1.framesOfLines rest

theorem currentLine_eq (d : Decoder) : d.currentLine = withoutReturn d.line.reverse := by
  unfold currentLine withoutReturn
  rw [List.getLast?_reverse]
  split
  · rename_i line hline
    rw [hline, List.head?_cons, if_pos rfl, List.reverse_cons, List.dropLast_concat]
  · rename_i hline
    rw [if_neg]
    intro hhead
    obtain ⟨line, hcons⟩ := List.head?_eq_some_iff.1 hhead
    exact hline line hcons

theorem bodyLines_last {line : List Char} (h : '\n' ∉ line) :
    bodyLines line = if line = [] then [] else [withoutReturn line] := by
  unfold bodyLines
  rw [List.splitOn_eq_singleton h]
  by_cases hline : line = []
  · rw [if_pos hline, hline]
    rfl
  · rw [if_neg hline]
    dsimp only
    rw [if_neg (by simpa using hline)]
    rfl

theorem bodyLines_append {line : List Char} (h : '\n' ∉ line) (body : List Char) :
    bodyLines (line ++ '\n' :: body) = withoutReturn line :: bodyLines body := by
  unfold bodyLines
  rw [List.splitOn_append_cons_self_of_not_mem h]
  obtain ⟨first, rest, hpieces⟩ := List.exists_cons_of_ne_nil (List.splitOn_ne_nil '\n' body)
  rw [hpieces]
  dsimp only
  rw [List.getLast?_cons_cons, List.dropLast_cons_cons]
  split <;> rfl

/-- A line that ends a frame leaves no other one to end. -/
theorem dispatch_takeLine (d : Decoder) (line : List Char)
    (h : (d.takeLine line).2.isSome) : (d.takeLine line).1.dispatch.2 = none := by
  unfold takeLine at h ⊢
  split at h
  · rfl
  · cases h
  · dsimp only at h
    split at h
    · cases h
    split at h <;> cases h

/-- A line is taken in apart from the text behind it. -/
theorem takeLine_rest (d : Decoder) (line : List Char) :
    (d.takeLine line).1.line = d.line ∧ (d.takeLine line).1.held = d.held := by
  unfold takeLine
  split
  · exact ⟨rfl, rfl⟩
  · exact ⟨rfl, rfl⟩
  · dsimp only
    split
    · exact ⟨rfl, rfl⟩
    split <;> exact ⟨rfl, rfl⟩

/-- The stream ends behind the last line, if there is one. -/
theorem finish_eq (d : Decoder) (h : d.held = []) (hline : '\n' ∉ d.line) :
    d.finish.2.toList
      = framesOfLines { d with line := [] } (bodyLines d.line.reverse) := by
  have hheld : { d with line := (Utf8.lossy d.held).reverse ++ d.line, held := [] } = d := by
    rw [h, Utf8.lossy_nil, ← h]
    rfl
  unfold finish
  rw [hheld, bodyLines_last (by simpa using hline)]
  dsimp only
  by_cases hempty : d.line = []
  · rw [if_pos (by simpa using hempty), if_pos (by simpa using hempty)]
    rfl
  · rw [if_neg (by simpa using hempty), if_neg (by simpa using hempty), ← currentLine_eq]
    -- The last line ends a frame itself, or else the end of the stream does.
    have hlast := dispatch_takeLine { d with line := [] } d.currentLine
    show _ = (takeLine { d with line := [] } d.currentLine).2.toList
      ++ (takeLine { d with line := [] } d.currentLine).1.dispatch.2.toList
    generalize takeLine { d with line := [] } d.currentLine = result at hlast ⊢
    obtain ⟨d', frame⟩ := result
    cases frame with
    | none => rfl
    | some frame =>
        rw [hlast rfl]
        rfl

/-- **Text gives the frames of its lines.** -/
theorem framesFrom_eq (d : Decoder) (h : d.held = []) (hline : '\n' ∉ d.line)
    (cs : List Char) :
    d.framesFrom cs
      = framesOfLines { d with line := [] } (bodyLines (d.line.reverse ++ cs)) := by
  induction cs generalizing d with
  | nil =>
      rw [List.append_nil, ← finish_eq d h hline]
      rfl
  | cons c cs ih =>
      rw [← List.singleton_append, framesFrom_append]
      show ((d.step c).2.toList ++ []) ++ (d.step c).1.framesFrom cs = _
      rw [List.append_nil]
      by_cases hc : c = '\n'
      · -- The line is taken in, and the next one is empty so far.
        have hstep : d.step c = takeLine { d with line := [] } d.currentLine := if_pos hc
        obtain ⟨hl, hh⟩ := takeLine_rest { d with line := [] } d.currentLine
        have hnext : { (d.step c).1 with line := [] } = (d.step c).1 := by
          rw [hstep]
          exact congrArg (fun line => Decoder.mk line _ _ _) hl.symm
        rw [ih (d.step c).1 (by rw [hstep, hh, h]) (by rw [hstep, hl]; exact List.not_mem_nil),
          hnext, hstep, hl, hc, List.singleton_append, bodyLines_append (by simpa using hline),
          ← currentLine_eq]
        rfl
      · -- The line grows, and the body is what it was.
        have hstep : d.step c = ({ d with line := c :: d.line }, none) := if_neg hc
        rw [ih (d.step c).1 (by rw [hstep, h])
          (by rw [hstep]; exact List.not_mem_cons_of_ne_of_not_mem (Ne.symm hc) hline), hstep]
        show framesOfLines { d with line := [] } (bodyLines ((c :: d.line).reverse ++ cs)) = _
        rw [List.reverse_cons, List.append_assoc]

/-! ## §4. Lines are taken in block by block. -/

/-- The value of a field stands behind the colon, less one leading space. -/
theorem splitField_snd (line : List Char) :
    (splitField line).2
      = if ((line.dropWhile fun c => c != ':').drop 1).head? = some ' '
        then ((line.dropWhile fun c => c != ':').drop 1).drop 1
        else (line.dropWhile fun c => c != ':').drop 1 := by
  have hcolon := List.head?_dropWhile_not (fun c => c != ':') line
  unfold splitField
  dsimp only
  generalize line.dropWhile (fun c => c != ':') = rest at hcolon ⊢
  cases rest with
  | nil => rfl
  | cons c rest =>
      obtain rfl : c = ':' := by simpa using hcolon
      cases rest with
      | nil => rfl
      | cons c rest =>
          by_cases hc : c = ' '
          · subst hc
            rfl
          · rw [List.drop_one, List.tail_cons, List.head?_cons, if_neg (by simpa using hc)]
            split
            · rename_i heq
              cases heq
              exact absurd rfl hc
            · rename_i heq
              cases heq
              rfl
            · rename_i hne
              exact absurd rfl (hne (c :: rest))

theorem fieldValue?_eq (field : String) {line : List Char} (h : line.head? ≠ some ':') :
    fieldValue? field line
      = if (splitField line).1 = field.toList then some (String.ofList (splitField line).2)
        else none := by
  have hname : (splitField line).1 = line.takeWhile fun c => c != ':' := by
    unfold splitField
    dsimp only
    split <;> rfl
  unfold fieldValue?
  rw [if_neg h, hname, splitField_snd]
  by_cases hfield : (line.takeWhile fun c => c != ':') = field.toList
  · rw [if_pos hfield, if_pos (by rw [hfield, String.ofList_toList])]
  · rw [if_neg hfield, if_neg]
    intro heq
    rw [← heq, String.toList_ofList] at hfield
    exact hfield rfl

/-- A line that is not blank adds what it says to the frame to come. -/
theorem takeLine_eq (d : Decoder) {line : List Char} (h : line ≠ []) :
    d.takeLine line
      = ({ d with
            event := fieldValue? "event" line <|> d.event
            data := d.data ++ (fieldValue? "data" line).toList },
          none) := by
  unfold takeLine
  split
  · exact absurd rfl h
  · rw [show ∀ field rest, fieldValue? field (':' :: rest) = none from fun _ _ => rfl,
      show ∀ field rest, fieldValue? field (':' :: rest) = none from fun _ _ => rfl]
    simp
  · rename_i hremark
    have hcolon : line.head? ≠ some ':' := by
      intro hhead
      obtain ⟨rest, hcons⟩ := List.head?_eq_some_iff.1 hhead
      exact hremark rest hcons
    rw [fieldValue?_eq _ hcolon, fieldValue?_eq _ hcolon]
    dsimp only
    by_cases hevent : (splitField line).1 = "event".toList
    · have hdata : (splitField line).1 ≠ "data".toList := by rw [hevent]; decide
      rw [if_pos hevent, if_pos hevent, if_neg hdata]
      simp
    · rw [if_neg hevent, if_neg hevent]
      split <;> simp

/-- The frame that a block makes together with what was read of it. -/
def pendingFrame? (d : Decoder) (block : List (List Char)) : Option Frame :=
  let event := (block.filterMap (fieldValue? "event")).getLast? <|> d.event
  match d.data ++ block.filterMap (fieldValue? "data") with
  | [] => none
  | data => some ⟨frameName event, "\n".intercalate data⟩

theorem dispatch_eq (d : Decoder) :
    d.dispatch = ({ d with event := none, data := [] }, d.pendingFrame? []) := by
  obtain ⟨line, held, event, data⟩ := d
  have hname : (event.filter fun name => name != "").getD "message" = frameName event := by
    cases event with
    | none => rfl
    | some name => by_cases h : name = "" <;> simp [frameName, Option.filter, h]
  unfold dispatch pendingFrame?
  dsimp only
  rw [hname, List.filterMap_nil, List.filterMap_nil, List.append_nil]
  cases data <;> rfl

theorem pendingFrame?_cons (d : Decoder) {line : List Char} (h : line ≠ [])
    (block : List (List Char)) :
    (d.takeLine line).1.pendingFrame? block = d.pendingFrame? (line :: block) := by
  have hevent : ((block.filterMap (fieldValue? "event")).getLast?
        <|> (fieldValue? "event" line <|> d.event))
      = (((line :: block).filterMap (fieldValue? "event")).getLast? <|> d.event) := by
    rw [List.filterMap_cons]
    cases fieldValue? "event" line with
    | none => rfl
    | some name =>
        rw [List.getLast?_cons]
        cases (block.filterMap (fieldValue? "event")).getLast? <;> rfl
  have hdata : d.data ++ (fieldValue? "data" line).toList
        ++ block.filterMap (fieldValue? "data")
      = d.data ++ (line :: block).filterMap (fieldValue? "data") := by
    rw [List.filterMap_cons, List.append_assoc]
    cases fieldValue? "data" line <;> rfl
  rw [takeLine_eq d h]
  unfold pendingFrame?
  dsimp only
  rw [hevent, hdata]

/-- Where nothing is pending the block stands alone. -/
theorem pendingFrame?_fresh (d : Decoder) (hevent : d.event = none) (hdata : d.data = [])
    (block : List (List Char)) : d.pendingFrame? block = blockFrame? block := by
  unfold pendingFrame? blockFrame?
  rw [hevent, hdata, List.nil_append]
  cases (block.filterMap (fieldValue? "event")).getLast? <;> rfl

/-- **Lines give the frames of their blocks.** -/
theorem framesOfLines_eq (d : Decoder) {lines block : List (List Char)}
    {rest : List (List (List Char))} (h : lines.splitOnP List.isEmpty = block :: rest) :
    d.framesOfLines lines
      = (d.pendingFrame? block).toList ++ rest.filterMap blockFrame? := by
  induction lines generalizing d block rest with
  | nil =>
      obtain ⟨rfl, rfl⟩ := List.cons.inj h
      show d.dispatch.2.toList = _
      rw [dispatch_eq, List.filterMap_nil, List.append_nil]
      rfl
  | cons line lines ih =>
      obtain ⟨next, blocks, hsplit⟩ :=
        List.exists_cons_of_ne_nil (List.splitOnP_ne_nil List.isEmpty lines)
      rw [List.splitOnP_cons_eq_if_modifyHead, hsplit] at h
      show (d.takeLine line).2.toList ++ (d.takeLine line).1.framesOfLines lines = _
      by_cases hline : line = []
      · -- A blank line ends the block, and nothing is pending behind it.
        rw [if_pos (by rw [hline]; rfl)] at h
        obtain ⟨rfl, rfl⟩ := List.cons.inj h
        have hdispatch : d.takeLine line = d.dispatch := by
          rw [hline]
          rfl
        have halone : d.dispatch.1.pendingFrame? next = blockFrame? next :=
          pendingFrame?_fresh _ (by rw [dispatch_eq]) (by rw [dispatch_eq]) next
        rw [hdispatch, ih d.dispatch.1 hsplit, halone, dispatch_eq, List.filterMap_cons]
        cases blockFrame? next <;> rfl
      · -- Any other line is the first one of the block.
        rw [if_neg (by simpa using hline)] at h
        obtain ⟨rfl, rfl⟩ := List.cons.inj h
        rw [ih (d.takeLine line).1 hsplit, pendingFrame?_cons d hline, takeLine_eq d hline]
        rfl

/-- **A text gives the frames of the body that it is.** -/
theorem framesFrom_start (body : List Char) : framesFrom start body = readBody body := by
  obtain ⟨block, rest, h⟩ :=
    List.exists_cons_of_ne_nil (List.splitOnP_ne_nil List.isEmpty (bodyLines body))
  rw [framesFrom_eq start rfl List.not_mem_nil]
  show framesOfLines start (bodyLines body) = _
  rw [framesOfLines_eq start h, pendingFrame?_fresh start rfl rfl]
  unfold readBody
  rw [h, List.filterMap_cons]
  cases blockFrame? block <;> rfl

/-- **Pieces of bytes give the frames of the text that they read as**, so
it does not matter where they are cut. -/
theorem receive_eq_frames (pieces : List (List UInt8)) :
    receive pieces = frames (String.ofList (Utf8.lossy pieces.flatten)) := by
  rw [receive_eq_framesFrom]
  unfold frames feed
  rw [String.toList_ofList]
  rfl

/-! ## §5. The stream and its body. -/

/-- **A stream that arrives in pieces gives the frames of its body**: the
text that the bytes stand for, of which there is one, read as a whole. -/
theorem receive_reads_body (pieces : List (List UInt8)) :
    ∃ body, (∀ text, Utf8.Reads pieces.flatten text ↔ text = body)
      ∧ receive pieces = readBody body := by
  refine ⟨Utf8.lossy pieces.flatten, ?_, ?_⟩
  · intro text
    constructor
    · exact Utf8.Reads.eq_lossy
    · rintro rfl
      exact Utf8.reads_lossy pieces.flatten
  · rw [receive_eq_framesFrom, framesFrom_start]

end Decoder

end WorkflowEditor.Sse

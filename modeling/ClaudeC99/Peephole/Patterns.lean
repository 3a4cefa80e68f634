import Mathlib.Data.List.DropRight

/-! The peephole optimizer: patterns over windows of assembly lines, matched by their text. -/

namespace ClaudeC99.Peephole

/-- A line of assembly, without its newline. -/
abbrev Line := List Char

def isBlank (c : Char) : Bool := c = ' ' ∨ c = '\t'

def skipBlanks (line : Line) : Line := line.dropWhile isBlank

def indentation (line : Line) : Line := line.takeWhile isBlank

/-- What follows a prefix. -/
def after (start : String) (line : Line) : Option Line :=
  if start.toList.isPrefixOf line then some (line.drop start.toList.length) else none

/-- The indentation as the replacers copy it into a buffer of `size` bytes. -/
def copyIndentation (size : Nat) (line : Line) : Line :=
  if size - 1 ≤ (indentation line).length then (indentation line).take (size - 2)
  else indentation line

/-- `g_zr_src` and `g_zr_dst`. -/
def zeroRegs : List (String × String) :=
  [("rax", "eax"), ("rbx", "ebx"), ("rcx", "ecx"), ("rdx", "edx"), ("rsi", "esi"), ("rdi", "edi"),
    ("r8", "r8d"), ("r9", "r9d"), ("r10", "r10d"), ("r11", "r11d"), ("r12", "r12d"),
    ("r13", "r13d"), ("r14", "r14d"), ("r15", "r15d"),
    ("eax", "eax"), ("ebx", "ebx"), ("ecx", "ecx"), ("edx", "edx"), ("esi", "esi"), ("edi", "edi")]

/-- The register that `xor` clears in the place of `mov REG, 0`. -/
def zrFindReg (line : Line) : Option String := do
  let p ← after "mov " (skipBlanks line)
  let r ← zeroRegs.find? fun r => p = r.1.toList ++ ", 0".toList
  some r.2

def xorLine (line : Line) (reg : String) : Line :=
  copyIndentation 64 line ++ ("xor ".toList ++ (reg.toList ++ (", ".toList ++ reg.toList)))

def matchNopMove (line : Line) : Bool :=
  match after "mov " (skipBlanks line) with
  | none => false
  | some p =>
    let dst := p.takeWhile fun c => c ≠ ','
    p.drop dst.length = ", ".toList ++ dst

def ppExtractReg (mnemonic : String) (size : Nat) (line : Line) : Option Line :=
  match after mnemonic (skipBlanks line) with
  | none => none
  | some reg => if reg = [] ∨ size ≤ reg.length then none else some reg

def movLine (line dst src : Line) : Line :=
  copyIndentation 80 line ++ ("mov ".toList ++ (dst ++ (", ".toList ++ src)))

/-- The register and the offset of `mov [rbp - N], REG`. -/
def ppParseStoreRbp (line : Line) : Option (Line × Line) := do
  let p ← after "mov " (skipBlanks line)
  let p ← after "[rbp - " p
  let off := p.takeWhile Char.isDigit
  if off = [] ∨ 16 ≤ off.length then none
  let reg ← after "], " (p.drop off.length)
  if reg = [] ∨ 32 ≤ reg.length then none
  some (reg, off)

/-- The register and the offset of `mov REG, [rbp - N]`. -/
def ppParseReloadRbp (line : Line) : Option (Line × Line) := do
  let p ← after "mov " (skipBlanks line)
  let reg := p.takeWhile fun c => c ≠ ','
  if reg = [] ∨ 32 ≤ reg.length then none
  let p ← after ", [rbp - " (p.drop reg.length)
  let off := p.takeWhile Char.isDigit
  if off = [] ∨ 16 ≤ off.length then none
  if p.drop off.length = [']'] then some (reg, off) else none

/-- The target of a `jmp`, cut to 63 characters and without trailing blanks. -/
def ppParseJmpLabel (line : Line) : Option Line := do
  let p ← after "jmp" (skipBlanks line)
  if !p.head?.any isBlank then none
  let target := ((skipBlanks p).take 63).rdropWhile fun c => isBlank c ∨ c = '\r' ∨ c = '\n'
  if target = [] then none else some target

def ppParseLabelDef (line : Line) : Option Line :=
  let name := line.takeWhile fun c => c ≠ ':'
  if line.head?.any isBlank ∨ name.length = line.length ∨ name = [] ∨ 64 ≤ name.length then none
  else some name

structure PeepholePattern where
  windowSize : Nat
  windowSize_pos : 0 < windowSize
  matcher : List Line → Bool
  replacer : List Line → List Line

/-- `mov REG, 0` becomes `xor REG32, REG32`. -/
def zeroReg : PeepholePattern where
  windowSize := 1
  windowSize_pos := by decide
  matcher
    | [line] => (zrFindReg line).isSome
    | _ => false
  replacer
    | [line] => (zrFindReg line).toList.map fun reg => (xorLine line reg).take 63
    | _ => []

/-- `mov REG, REG` is removed. -/
def nopMove : PeepholePattern where
  windowSize := 1
  windowSize_pos := by decide
  matcher
    | [line] => matchNopMove line
    | _ => false
  replacer _ := []

/-- `push rX`, `pop rY` becomes `mov rY, rX`. -/
def pushPop : PeepholePattern where
  windowSize := 2
  windowSize_pos := by decide
  matcher
    | [first, second] =>
      (ppExtractReg "push " 32 first).isSome && (ppExtractReg "pop " 32 second).isSome
    | _ => false
  replacer
    | [first, second] =>
      match ppExtractReg "push " 32 first, ppExtractReg "pop " 32 second with
      | some r₀, some r₁ => if r₀ = r₁ then [] else [(movLine first r₁ r₀).take 79]
      | _, _ => []
    | _ => []

/-- A reload of what has just been stored is removed. -/
def redundantReload : PeepholePattern where
  windowSize := 2
  windowSize_pos := by decide
  matcher
    | [first, second] =>
      match ppParseStoreRbp first, ppParseReloadRbp second with
      | some stored, some loaded => stored = loaded
      | _, _ => false
    | _ => false
  replacer window := window.take 1

/-- The first of two stores at one offset is removed. -/
def redundantStore : PeepholePattern where
  windowSize := 2
  windowSize_pos := by decide
  matcher
    | [first, second] =>
      match ppParseStoreRbp first, ppParseStoreRbp second with
      | some (_, off₀), some (_, off₁) => off₀ = off₁
      | _, _ => false
    | _ => false
  replacer window := window.drop 1

/-- A jump to the label of the next line is removed. -/
def deadJump : PeepholePattern where
  windowSize := 2
  windowSize_pos := by decide
  matcher
    | [first, second] =>
      match ppParseJmpLabel first, ppParseLabelDef second with
      | some target, some name => target = name
      | _, _ => false
    | _ => false
  replacer window := window.drop 1

def builtinPatterns : List PeepholePattern :=
  [zeroReg, nopMove, pushPop, redundantReload, redundantStore, deadJump]

/-- The pattern that fires at the first of the lines. -/
def firstMatch (patterns : List PeepholePattern) (lines : List Line) : Option PeepholePattern :=
  patterns.find? fun p => p.windowSize ≤ lines.length ∧ p.matcher (lines.take p.windowSize)

/-- One pass over the lines, which goes on behind each replacement. -/
def peepholeApply (patterns : List PeepholePattern) : List Line → List Line
  | [] => []
  | line :: rest =>
    match firstMatch patterns (line :: rest) with
    | some p =>
      p.replacer ((line :: rest).take p.windowSize) ++
        peepholeApply patterns ((line :: rest).drop p.windowSize)
    | none => line :: peepholeApply patterns rest
termination_by lines => lines.length
decreasing_by
  · have h_pos := p.windowSize_pos
    simp only [List.length_drop, List.length_cons]
    omega
  · simp

end ClaudeC99.Peephole

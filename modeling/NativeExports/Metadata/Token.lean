import NativeExports.Metadata.Table
import NativeExports.Text.Digits

/-!
# Tokens

A token is a 32-bit handle of a row: the table number in the high byte, the row number in the low
24 bits. Instructions, signatures and the entry point refer to rows by token.
-/

namespace NativeExports

/-- A token: the number of a table times `2 ^ 24`, plus the number of a row. -/
structure Token where
  value : Nat
  deriving DecidableEq, Repr, Inhabited

namespace Token

/-- The number of rows that 24 bits can tell apart. -/
def rowLimit : Nat := 2 ^ 24

/-- The token of a row; only the low 24 bits of the row number are kept. -/
def ofRow (table : Table) (row : Nat) : Token :=
  ⟨table.number * rowLimit + row % rowLimit⟩

def tableNumber (token : Token) : Nat :=
  token.value / rowLimit % 256

/-- The table, if the high byte is the number of one. -/
def table? (token : Token) : Option Table :=
  Table.ofNumber? token.tableNumber

def row (token : Token) : Nat :=
  token.value % rowLimit

/-- Whether the token names no row. -/
def isNull (token : Token) : Bool :=
  token.row == 0

def display (token : Token) : String :=
  "0x" ++ Text.lowerHex token.value 8

/-- A token with its parts spelled out. -/
def describe (token : Token) : String :=
  s!"Token({token.display}, table: 0x{Text.lowerHex token.tableNumber 2}, row: {token.row})"

instance : ToString Token := ⟨display⟩

@[simp]
theorem table?_ofRow (table : Table) (row : Nat) : (ofRow table row).table? = some table := by
  have h : (ofRow table row).tableNumber = table.number := by
    have := table.number_lt
    simp only [ofRow, tableNumber, rowLimit]
    omega
  simp [table?, h]

@[simp]
theorem row_ofRow (table : Table) (row : Nat) : (ofRow table row).row = row % rowLimit := by
  simp only [ofRow, Token.row, rowLimit]
  omega

/-- A token has 32 bits. -/
theorem ofRow_lt (table : Table) (row : Nat) : (ofRow table row).value < 2 ^ 32 := by
  have := table.number_lt
  simp only [ofRow, rowLimit]
  omega

/-- A token of a known table is determined by its table and row. -/
theorem ofRow_row {token : Token} {table : Table} (hv : token.value < 2 ^ 32)
    (h : token.table? = some table) : ofRow table token.row = token := by
  have hn : token.tableNumber = table.number := by
    unfold table? Table.ofNumber? at h
    have hlt : token.tableNumber < 45 := by
      rw [List.getElem?_eq_some_iff] at h
      exact h.1
    have hall : ∀ n : Fin 45, ∀ t, Table.all[n.val]? = some t → n.val = t.number := by decide
    exact hall ⟨_, hlt⟩ table h
  cases token with
  | mk value =>
    simp only [ofRow, tableNumber, Token.row, rowLimit] at *
    congr 1
    omega

end Token

end NativeExports

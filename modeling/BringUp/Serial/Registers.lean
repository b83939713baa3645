import BringUp.Flags
import BringUp.Register.Block

/-!
# Registers of the serial controller

Offsets, widths and named bits of the serial controller with FIFOs. The two data registers, the
rate register and the extended mode register are one byte wide, all others two.

The rate register's place is shared: while `Semr.mddrs` is set, it is the modulation duty register.
-/

namespace BringUp.Serial

/-! ### Offsets -/

namespace Offset

/-- Serial mode. -/
def smr : UInt64 := 0x00
/-- Bit rate, or modulation duty while `Semr.mddrs` is set. -/
def brr : UInt64 := 0x02
/-- Serial control. -/
def scr : UInt64 := 0x04
/-- Transmit data. -/
def ftdr : UInt64 := 0x06
/-- Serial status. -/
def fsr : UInt64 := 0x08
/-- Receive data. -/
def frdr : UInt64 := 0x0A
/-- FIFO control. -/
def fcr : UInt64 := 0x0C
/-- FIFO data count. -/
def fdr : UInt64 := 0x0E
/-- Line levels. -/
def sptr : UInt64 := 0x10
/-- Line status. -/
def lsr : UInt64 := 0x12
/-- Extended mode. -/
def semr : UInt64 := 0x14
/-- FIFO trigger control. -/
def ftcr : UInt64 := 0x16

/-- All registers, by address. -/
def all : List UInt64 :=
  [smr, brr, scr, ftdr, fsr, frdr, fcr, fdr, sptr, lsr, semr, ftcr]

end Offset

/-- Widths of the registers. -/
def layout : Layout :=
  ⟨[Offset.brr, Offset.ftdr, Offset.frdr, Offset.semr], .half⟩

/-- Value of the mode register for asynchronous transfer of eight bits without parity and with one
stop bit, on the undivided clock. -/
def asyncEightBits : UInt32 := 0x0000

/-! ### Bits -/

namespace Fsr

/-- Receive error. -/
def er : UInt32 := 0x80
/-- Transmit end. -/
def tend : UInt32 := 0x40
/-- Transmit FIFO empty. -/
def tdfe : UInt32 := 0x20
/-- Break. -/
def brk : UInt32 := 0x10
/-- Receive FIFO full. -/
def rdf : UInt32 := 0x02
/-- Receive data ready. -/
def dr : UInt32 := 0x01
/-- The two flags that must be set before the next byte is written. -/
def txReadyMask : UInt32 := tend ||| tdfe

/-- Whether the transmitter can take a byte. -/
def txReady (status : UInt32) : Bool :=
  status &&& txReadyMask == txReadyMask

/-- Names of the flags. -/
def table : FlagTable :=
  ⟨[("ER", er.toUInt64), ("TEND", tend.toUInt64), ("TDFE", tdfe.toUInt64),
    ("BRK", brk.toUInt64), ("RDF", rdf.toUInt64), ("DR", dr.toUInt64)]⟩

end Fsr

namespace Scr

/-- Transmitter on. -/
def te : UInt32 := 0x20
/-- Receiver on. -/
def re : UInt32 := 0x10
/-- External clock. -/
def cke1 : UInt32 := 0x02
/-- Clock output. -/
def cke0 : UInt32 := 0x01
/-- Transmitter and receiver on. -/
def bothOn : UInt32 := te ||| re

/-- Names of the bits. -/
def table : FlagTable :=
  ⟨[("TE", te.toUInt64), ("RE", re.toUInt64), ("CKE1", cke1.toUInt64), ("CKE0", cke0.toUInt64)]⟩

end Scr

namespace Fcr

/-- Transmit FIFO held in reset. -/
def tfrst : UInt32 := 0x04
/-- Receive FIFO held in reset. -/
def rfrst : UInt32 := 0x02
/-- Both FIFOs held in reset. -/
def bothReset : UInt32 := tfrst ||| rfrst

/-- Names of the bits. -/
def table : FlagTable :=
  ⟨[("TFRST", tfrst.toUInt64), ("RFRST", rfrst.toUInt64)]⟩

end Fcr

namespace Semr

/-- Bit rate modulation on. -/
def brme : UInt32 := 0x20
/-- The rate register's place is the modulation duty register. -/
def mddrs : UInt32 := 0x10
/-- Both bits. -/
def modulation : UInt32 := brme ||| mddrs

/-- Names of the bits. -/
def table : FlagTable :=
  ⟨[("BRME", brme.toUInt64), ("MDDRS", mddrs.toUInt64)]⟩

end Semr

namespace Lsr

/-- Overrun. -/
def orer : UInt32 := 0x01

/-- Names of the bits. -/
def table : FlagTable :=
  ⟨[("ORER", orer.toUInt64)]⟩

end Lsr

end BringUp.Serial

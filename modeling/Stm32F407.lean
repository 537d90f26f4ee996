import Stm32F407.Malloc.Realloc
import Stm32F407.Malloc.Refine
import Stm32F407.Eth.Deliver
import Stm32F407.Eth.Memory
import Stm32F407.Eth.Tx
import Stm32F407.Lwip.Periodic
import Stm32F407.Lwip.Received
import Stm32F407.Lwip.Comm
import Stm32F407.Lwip.CyclicTimers
import Stm32F407.Lwip.MemRun
import Stm32F407.Lwip.InetChksum
import Stm32F407.Lwip.ReassInv
import Stm32F407.Lcd.Register
import Stm32F407.Lcd.Dispatch
import Stm32F407.Lcd.Priority
import Stm32F407.Lcd.Period
import Stm32F407.Lcd.Box
import Stm32F407.Lcd.Window
import Stm32F407.Lcd.Block
import Stm32F407.Lcd.Word
import Stm32F407.I2c.Reports
import Stm32F407.I2c.Eeprom
import Stm32F407.I2c.Registers
import Stm32F407.Serial.Lines
import Stm32F407.Fsmc.Sram
import Stm32F407.Usb.Flag
import Stm32F407.Usb.Disk
